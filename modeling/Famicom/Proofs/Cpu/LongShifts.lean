import Famicom.Proofs.Console.Cells
import Famicom.Proofs.Cpu.Chains

namespace Famicom

variable {μ κ : Type} [AddressSpace μ] [DecidableEq κ]

inductive Place (κ : Type) where
  | accumulator
  | cell (k : κ)
  deriving DecidableEq, Repr

namespace Cpu

def byteAt (shown : μ → κ → UInt8) (cpu : Cpu) (m : μ) (place : Place κ) : UInt8 :=
  match place with
  | .accumulator => cpu.registers.a
  | .cell k => shown m k

def At (cell? : UInt16 → Option κ) (cpu : Cpu) (m : μ) (mnemonic : Mnemonic) (place : Place κ) : Prop :=
  ∃ i, decode (AddressSpace.read m cpu.registers.pc).1 = some i ∧ i.mnemonic = mnemonic ∧
    match place with
    | .accumulator => i.mode = .accumulator
    | .cell k => ∃ a, (cpu.located m i).operand = .memory a ∧ cell? a = some k

variable {stands : μ → Prop} {cell? : UInt16 → Option κ} {shown : μ → κ → UInt8} {cpu : Cpu} {m : μ}

omit [AddressSpace μ] in
theorem byteAt_cell (registers : Registers) {memory : μ} {k : κ} {v : UInt8}
    (written : shown memory = Function.update (shown m) k v) (same : registers.a = cpu.registers.a)
    (cycles instructions : UInt64) :
    byteAt shown ⟨registers,cycles,instructions⟩ memory = Function.update (cpu.byteAt shown m) (.cell k) v := by
  funext place
  cases place with
  | accumulator => exact same
  | cell j => simp only [byteAt,written,Function.update_apply,Place.cell.injEq]

omit [AddressSpace μ] in
theorem byteAt_accumulator (registers : Registers) {memory : μ} (same : shown memory = shown m)
    (cycles instructions : UInt64) :
    byteAt shown ⟨registers,cycles,instructions⟩ memory =
      Function.update (cpu.byteAt shown m) .accumulator registers.a := by
  funext place
  cases place with
  | accumulator => rfl
  | cell j => simp [byteAt,same]

theorem located_cells (cells : Cells stands cell? shown) (standing : stands m) (i : Instruction) :
    stands (cpu.located m i).memory ∧ shown (cpu.located m i).memory = shown m := by
  have reads : ∀ n a, stands n ∧ shown n = shown m →
      stands (AddressSpace.read n a).2 ∧ shown (AddressSpace.read n a).2 = shown m := by
    rintro n a ⟨still,same⟩
    obtain ⟨after,kept,_⟩ := cells.read n a still
    exact ⟨after,kept.trans same⟩
  exact i.mode.locate_keeps reads _ (reads m _ ⟨standing,rfl⟩)

-- One law for all four instructions and for every place: the byte is replaced, the carry takes the bit that comes out,
-- and the other two flags judge the result.
theorem step_shifts (cells : Cells stands cell? shown) (standing : stands m) {mnemonic : Mnemonic}
    (shifts : mnemonic ∈ shifters) {place : Place κ} (here : cpu.At cell? m mnemonic place) :
    let result := mnemonic.shift cpu.registers.p.carry (cpu.byteAt shown m place)
    stands (cpu.step m).memory ∧
      (cpu.step m).cpu.byteAt shown (cpu.step m).memory =
        Function.update (cpu.byteAt shown m) place result.1 ∧
      (cpu.step m).cpu.registers.p = {cpu.registers.p with carry := result.2}.judging result.1 := by
  obtain ⟨i,decoded,rfl,operand⟩ := here
  have acts := Mnemonic.shift_action shifts
  obtain ⟨still,same⟩ := cpu.located_cells cells standing i
  rw [cpu.step_known m i decoded]
  cases place with
  | accumulator =>
      have found : (cpu.located m i).operand = .accumulator := by
        rw [located,operand]
        rfl
      simp only [performed,acts,Action.perform,found,Operand.load,Operand.store,cpu.located_registers]
      obtain ⟨settled,left⟩ := cells.stall _ still
      exact ⟨settled,byteAt_accumulator _ (left.trans same) _ _,rfl⟩
  | cell k =>
      obtain ⟨a,found,named⟩ := operand
      simp only [performed,acts,Action.perform,found,Operand.load,Operand.store,cpu.located_registers]
      -- The byte is read from its cell, replaced there, and kept by the end of the stall.
      obtain ⟨after,kept,value⟩ := cells.read _ a still
      rw [value k named,same]
      obtain ⟨written,replaced⟩ := cells.write _ a (i.mnemonic.shift cpu.registers.p.carry (shown m k)).1 k after named
      obtain ⟨settled,left⟩ := cells.stall _ written
      rw [kept,same] at replaced
      exact ⟨settled,byteAt_cell _ (left.trans replaced) rfl _ _,rfl⟩

-- An execution of some shifts in their order. What is done between two of them leaves the carry alone, and the bytes
-- that the shifts are about.
inductive Shifting (stands : μ → Prop) (cell? : UInt16 → Option κ) (shown : μ → κ → UInt8) (places : List (Place κ)) :
    List (Mnemonic × Place κ) → Cpu → μ → Cpu → μ → Prop where
  | done {cpu : Cpu} {m : μ} : Shifting stands cell? shown places [] cpu m cpu m
  | shift {cpu ready last : Cpu} {m left rest : μ} {mnemonic : Mnemonic} {place : Place κ}
      {later : List (Mnemonic × Place κ)} (coasts : Coasts cpu m ready left) (standing : stands left)
      (kept : ∀ p ∈ places, ready.byteAt shown left p = cpu.byteAt shown m p)
      (here : ready.At cell? left mnemonic place)
      (others : Shifting stands cell? shown places later (ready.step left).cpu (ready.step left).memory last rest) :
      Shifting stands cell? shown places ((mnemonic,place) :: later) cpu m last rest

variable {stands : μ → Prop} {cell? : UInt16 → Option κ} {shown : μ → κ → UInt8} {places : List (Place κ)}
  {shifts : List (Mnemonic × Place κ)} {cpu last : Cpu} {m rest : μ}

theorem Shifting.told (shifting : Shifting stands cell? shown places shifts cpu m last rest)
    (cells : Cells stands cell? shown) (about : ∀ x ∈ shifts, x.1 ∈ shifters ∧ x.2 ∈ places) :
    (∀ p ∈ places, last.byteAt shown rest p = (through shifts (cpu.byteAt shown m,cpu.registers.p.carry)).1 p) ∧
      last.registers.p.carry = (through shifts (cpu.byteAt shown m,cpu.registers.p.carry)).2 := by
  induction shifting with
  | done => exact ⟨fun _ _ => rfl,rfl⟩
  | @shift cpu ready last m left rest mnemonic place later coasts standing kept here others ih =>
      obtain ⟨⟨shifts,among⟩,about⟩ := List.forall_mem_cons.mp about
      obtain ⟨_,bytes,status⟩ := ready.step_shifts cells standing shifts here
      obtain ⟨told,carry⟩ := ih about
      rw [coasts.carry,kept place among] at bytes status
      have carried : (ready.step left).cpu.registers.p.carry =
          (mnemonic.shift cpu.registers.p.carry (cpu.byteAt shown m place)).2 := (congrArg Status.carry status :)
      have same : ∀ p ∈ places, (ready.step left).cpu.byteAt shown (ready.step left).memory p =
          Function.update (cpu.byteAt shown m) place
            (mnemonic.shift cpu.registers.p.carry (cpu.byteAt shown m place)).1 p := by
        intro p among
        rw [bytes]
        simp only [Function.update_apply,kept p among]
      obtain ⟨there,bit⟩ := through_congr later (fun x of => (about x of).2) same carried
      exact ⟨fun p of => (told p of).trans (there p of),carry.trans bit⟩

def numberAt (shown : μ → κ → UInt8) (places : List (Place κ)) (cpu : Cpu) (m : μ) : Nat :=
  littleEndian (places.map (cpu.byteAt shown m))

def wordAt (shown : μ → κ → UInt8) (places : List (Place κ)) (cpu : Cpu) (m : μ) : BitVec (8 * places.length + 1) :=
  wordOf places (cpu.byteAt shown m,cpu.registers.p.carry)

namespace Shifting

theorem word (shifting : Shifting stands cell? shown places shifts cpu m last rest)
    (cells : Cells stands cell? shown) (about : ∀ x ∈ shifts, x.1 ∈ shifters ∧ x.2 ∈ places) :
    wordAt shown places last rest =
      wordOf places (through shifts (cpu.byteAt shown m,cpu.registers.p.carry)) := by
  obtain ⟨bytes,carry⟩ := shifting.told cells about
  rw [wordAt,wordOf,wordOf,List.map_congr_left bytes,carry]

-- As a word comes back, each byte does and the carry too.
omit [AddressSpace μ] [DecidableEq κ] in
theorem back (same : wordAt shown places last rest = wordAt shown places cpu m) :
    (∀ p ∈ places, last.byteAt shown rest p = cpu.byteAt shown m p) ∧
      last.registers.p.carry = cpu.registers.p.carry := by
  obtain ⟨bytes,carry⟩ := withCarry_injective (List.length_map _) (List.length_map _) same
  exact ⟨List.map_inj_left.mp bytes,carry⟩

omit [DecidableEq κ] in
theorem chained {first later : Mnemonic} (shifts : first ∈ shifters) (others : later ∈ shifters)
    {visited : List (Place κ)} (among : ∀ p ∈ visited, p ∈ places) :
    ∀ x ∈ chain first later visited, x.1 ∈ shifters ∧ x.2 ∈ places := by
  intro x of
  obtain ⟨named,place⟩ := chain_mem of
  rcases named with named | named
  · exact ⟨named ▸ shifts,among _ place⟩
  · exact ⟨named ▸ others,among _ place⟩

variable (cells : Cells stands cell? shown) (distinct : places.Nodup) (filled : places ≠ [])
include cells distinct filled

theorem doubled (shifting : Shifting stands cell? shown places (chain .asl .rol places) cpu m last rest) :
    numberAt shown places last rest = 2 * numberAt shown places cpu m % 256 ^ places.length ∧
      last.registers.p.carry = (numberAt shown places cpu m).testBit (8 * places.length - 1) := by
  obtain ⟨bytes,carry⟩ := shifting.told cells (chained (by decide) (by decide) fun _ of => of)
  rw [chain_clear (fun _ => rfl) filled] at bytes carry
  have total := leftward_total distinct (cpu.byteAt shown m,false)
  have below := littleEndian_lt (places.map (last.byteAt shown rest))
  rw [← List.map_congr_left bytes,← carry] at total
  rw [List.length_map] at below
  exact double_parts (List.length_pos_of_ne_nil filled) below total

theorem halved (shifting : Shifting stands cell? shown places (chain .lsr .ror places.reverse) cpu m last rest) :
    numberAt shown places last rest = numberAt shown places cpu m / 2 ∧
      last.registers.p.carry = (numberAt shown places cpu m).testBit 0 := by
  obtain ⟨bytes,carry⟩ := shifting.told cells (chained (by decide) (by decide) fun _ => List.mem_reverse.mp)
  rw [chain_clear (fun _ => rfl) (by simpa using filled)] at bytes carry
  have total := rightward_total distinct (cpu.byteAt shown m,false)
  rw [← List.map_congr_left bytes,← carry] at total
  exact half_parts total

theorem turned (shifting : Shifting stands cell? shown places (chain .rol .rol places) cpu m last rest) :
    wordAt shown places last rest = (wordAt shown places cpu m).rotateLeft 1 := by
  rw [shifting.word cells (chained (by decide) (by decide) fun _ of => of),chain_same]
  exact leftward_word distinct filled _

theorem turnedBack (shifting : Shifting stands cell? shown places (chain .ror .ror places.reverse) cpu m last rest) :
    wordAt shown places last rest = (wordAt shown places cpu m).rotateRight 1 := by
  rw [shifting.word cells (chained (by decide) (by decide) fun _ => List.mem_reverse.mp),chain_same]
  exact rightward_word distinct filled _

omit filled in
theorem restored (shifting : Shifting stands cell? shown places
      (chain .rol .rol places ++ chain .ror .ror places.reverse) cpu m last rest) :
    wordAt shown places last rest = wordAt shown places cpu m := by
  rw [shifting.word cells (List.forall_mem_append.mpr ⟨chained (by decide) (by decide) fun _ of => of,
    chained (by decide) (by decide) fun _ => List.mem_reverse.mp⟩),chain_same,chain_same]
  exact leftward_rightward distinct _

theorem roundabout (shifting : Shifting stands cell? shown places
      (List.replicate (8 * places.length + 1) (chain .rol .rol places)).flatten cpu m last rest) :
    wordAt shown places last rest = wordAt shown places cpu m := by
  have about : ∀ x ∈ (List.replicate (8 * places.length + 1) (chain .rol .rol places)).flatten,
      x.1 ∈ shifters ∧ x.2 ∈ places := by
    intro x of
    obtain ⟨turn,among,of⟩ := List.mem_flatten.mp of
    rw [List.eq_of_mem_replicate among] at of
    exact chained (by decide) (by decide) (fun _ of => of) x of
  rw [shifting.word cells about,chain_same,leftward_turns distinct filled,rotateLeft_whole]
  rfl

end Shifting
end Cpu

namespace FlatMemory

def absoluteOpcode (mnemonic : Mnemonic) : UInt8 :=
  match mnemonic with
  | .asl => 0x0E
  | .lsr => 0x4E
  | .rol => 0x2E
  | _ => 0x6E

def assembled (shifts : List (Mnemonic × UInt16)) : List UInt8 :=
  shifts.flatMap fun x => [absoluteOpcode x.1,lowByte x.2,highByte x.2]

def spread (a : UInt16) (bytes : List UInt8) : List (UInt16 × UInt8) :=
  match bytes with
  | [] => []
  | v :: rest => (a,v) :: spread (a + 1) rest

theorem decode_absoluteOpcode {mnemonic : Mnemonic} (shifts : mnemonic ∈ shifters) :
    decode (absoluteOpcode mnemonic) = some ⟨mnemonic,.absolute,6,false⟩ := by
  simp only [shifters,List.mem_cons,List.not_mem_nil,or_false] at shifts
  rcases shifts with rfl | rfl | rfl | rfl <;> rfl

theorem step_absolute (cpu : Cpu) (m : FlatMemory) {mnemonic : Mnemonic} (shifts : mnemonic ∈ shifters) {a : UInt16}
    (opcode : m.get cpu.registers.pc = absoluteOpcode mnemonic) (low : m.get (cpu.registers.pc + 1) = lowByte a)
    (high : m.get (cpu.registers.pc + 1 + 1) = highByte a) :
    cpu.At some m mnemonic (.cell a) ∧ (cpu.step m).cpu.registers.pc = cpu.registers.pc + 1 + 1 + 1 ∧
      ∀ b, b ≠ a → (cpu.step m).memory.get b = m.get b := by
  have decoded : decode (AddressSpace.read m cpu.registers.pc).1 = some ⟨mnemonic,.absolute,6,false⟩ := by
    rw [← decode_absoluteOpcode shifts,← opcode]
    rfl
  have operand : (cpu.located m ⟨mnemonic,.absolute,6,false⟩).operand = .memory a := by
    rw [← word_low_high a,← low,← high]
    rfl
  have here : cpu.At some m mnemonic (.cell a) := ⟨_,decoded,rfl,a,operand,rfl⟩
  refine ⟨here,?_,?_⟩
  · rw [cpu.step_known m _ decoded]
    simp only [Cpu.performed,Mnemonic.shift_action shifts,Action.perform,operand,Operand.store,cpu.located_registers]
    exact (UInt16.add_assoc (cpu.registers.pc + 1) 1 1).symm
  · intro b other
    obtain ⟨_,bytes,_⟩ := cpu.step_shifts allCells trivial shifts here
    have cell := congrFun bytes (.cell b)
    rwa [Function.update_of_ne (fun same => other (Place.cell.inj same))] at cell

-- A program of such shifts runs through them, provided that it does not shift itself.
theorem assembled_shifting (places : List (Place UInt16)) (shifts : List (Mnemonic × UInt16)) :
    ∀ (cpu : Cpu) (m : FlatMemory), (∀ x ∈ shifts, x.1 ∈ shifters) →
      (∀ x ∈ spread cpu.registers.pc (assembled shifts), m.get x.1 = x.2 ∧ ∀ y ∈ shifts, y.2 ≠ x.1) →
        ∃ last rest, Cpu.Shifting (fun _ => True) some get places (shifts.map fun x => (x.1,.cell x.2)) cpu m
          last rest := by
  induction shifts with
  | nil => exact fun cpu m _ _ => ⟨cpu,m,.done⟩
  | cons first later ih =>
      intro cpu m known lies
      obtain ⟨shifts,others⟩ := List.forall_mem_cons.mp known
      simp only [assembled,List.flatMap_cons,List.cons_append,List.nil_append,spread,List.forall_mem_cons] at lies
      obtain ⟨⟨opcode,_⟩,⟨low,_⟩,⟨high,_⟩,lies⟩ := lies
      obtain ⟨here,pc,spares⟩ := step_absolute cpu m shifts opcode low high
      have left : ∀ x ∈ spread (cpu.step m).cpu.registers.pc (assembled later),
          (cpu.step m).memory.get x.1 = x.2 ∧ ∀ y ∈ later, y.2 ≠ x.1 := by
        intro x among
        rw [pc] at among
        obtain ⟨holds,apart,others⟩ := lies x among
        exact ⟨(spares x.1 (Ne.symm apart)).trans holds,others⟩
      obtain ⟨last,rest,shifting⟩ := ih (cpu.step m).cpu (cpu.step m).memory others left
      exact ⟨last,rest,.shift .here trivial (fun _ _ => rfl) here shifting⟩

end FlatMemory

namespace Cpu

variable {stands : μ → Prop} {cell? : UInt16 → Option κ} {shown : μ → κ → UInt8} {places : List (Place κ)}

-- Long shifts and rotations, of bytes in any places, the lowest first, and by any program.
theorem longShifts_exact (cells : Cells stands cell? shown) (distinct : places.Nodup) (filled : places ≠ []) (cpu : Cpu)
    (m : μ) :
    (∀ last rest, Shifting stands cell? shown places (chain .asl .rol places) cpu m last rest →
      numberAt shown places last rest = 2 * numberAt shown places cpu m % 256 ^ places.length ∧
        last.registers.p.carry = (numberAt shown places cpu m).testBit (8 * places.length - 1)) ∧
      (∀ last rest, Shifting stands cell? shown places (chain .lsr .ror places.reverse) cpu m last rest →
        numberAt shown places last rest = numberAt shown places cpu m / 2 ∧
          last.registers.p.carry = (numberAt shown places cpu m).testBit 0) ∧
      (∀ last rest, Shifting stands cell? shown places (chain .rol .rol places) cpu m last rest →
        wordAt shown places last rest = (wordAt shown places cpu m).rotateLeft 1) ∧
      (∀ last rest, Shifting stands cell? shown places (chain .ror .ror places.reverse) cpu m last rest →
        wordAt shown places last rest = (wordAt shown places cpu m).rotateRight 1) ∧
      (∀ shifts ∈ [chain .rol .rol places ++ chain .ror .ror places.reverse,
          (List.replicate (8 * places.length + 1) (chain .rol .rol places)).flatten],
        ∀ last rest, Shifting stands cell? shown places shifts cpu m last rest →
          (∀ p ∈ places, last.byteAt shown rest p = cpu.byteAt shown m p) ∧
            last.registers.p.carry = cpu.registers.p.carry) ∧
      -- The same byte and the same carry become the same, wherever the byte stands and however it is addressed.
      (∀ mnemonic ∈ shifters, ∀ (other : Cpu) (n : μ) (p q : Place κ), stands m → stands n →
        cpu.At cell? m mnemonic p → other.At cell? n mnemonic q → cpu.byteAt shown m p = other.byteAt shown n q →
          cpu.registers.p.carry = other.registers.p.carry →
            let here := cpu.step m
            let there := other.step n
            here.cpu.byteAt shown here.memory p = there.cpu.byteAt shown there.memory q ∧
              here.cpu.registers.p.carry = there.cpu.registers.p.carry ∧
              here.cpu.registers.p.zero = there.cpu.registers.p.zero ∧
              here.cpu.registers.p.negative = there.cpu.registers.p.negative) ∧
      -- Flat memory has such cells and the bus has, and a program of any shifts on flat memory runs through them.
      Cells (fun _ : FlatMemory => True) some FlatMemory.get ∧
      (∀ saves, Cells (Bus.Saving saves) (Bus.cell? saves) Bus.cellShown) ∧
      ∀ (t : FlatMemory) (shifts : List (Mnemonic × UInt16)), (∀ x ∈ shifts, x.1 ∈ shifters) →
        (∀ x ∈ FlatMemory.spread cpu.registers.pc (FlatMemory.assembled shifts),
          t.get x.1 = x.2 ∧ ∀ y ∈ shifts, y.2 ≠ x.1) →
          ∀ places, ∃ last rest, Shifting (fun _ => True) some FlatMemory.get places
            (shifts.map fun x => (x.1,.cell x.2)) cpu t last rest := by
  refine ⟨fun last rest shifting => shifting.doubled cells distinct filled,
    fun last rest shifting => shifting.halved cells distinct filled,
    fun last rest shifting => shifting.turned cells distinct filled,
    fun last rest shifting => shifting.turnedBack cells distinct filled,?back,?forms,FlatMemory.allCells,
    Bus.memoryCells,fun t shifts known lies places => FlatMemory.assembled_shifting places shifts cpu t known lies⟩
  case back =>
    intro shifts among last rest shifting
    simp only [List.mem_cons,List.not_mem_nil,or_false] at among
    rcases among with rfl | rfl
    · exact Shifting.back (shifting.restored cells distinct)
    · exact Shifting.back (shifting.roundabout cells distinct filled)
  case forms =>
    intro mnemonic shifts other n p q standing standingToo reached reachedToo byte carry here there
    obtain ⟨_,bytes,status⟩ := cpu.step_shifts cells standing shifts reached
    obtain ⟨_,bytesToo,statusToo⟩ := other.step_shifts cells standingToo shifts reachedToo
    rw [byte,carry] at bytes status
    refine ⟨?_,?_,?_,?_⟩
    · rw [bytes,bytesToo,Function.update_self,Function.update_self]
    · rw [status,statusToo]
      rfl
    · rw [status,statusToo]
      rfl
    · rw [status,statusToo]
      rfl

theorem twoBytes_doubled :
    let m := ((((((({} : FlatMemory).set 0 0x0E).set 1 0x10).set 3 0x2E).set 4 0x11).set 0x10 0xC3).set 0x11 0x80)
    let places : List (Place UInt16) := [.cell 0x10,.cell 0x11]
    ∃ last rest, Shifting (fun _ => True) some FlatMemory.get places (chain .asl .rol places) {} m last rest ∧
      numberAt FlatMemory.get places {} m = 0x80C3 ∧ numberAt FlatMemory.get places last rest = 0x0186 ∧
      last.registers.p.carry = true := by
  intro m places
  obtain ⟨doubled,_,_,_,_,_,_,_,executed⟩ := longShifts_exact FlatMemory.allCells
    (show places.Nodup by decide) (show places ≠ [] by decide) {} m
  have clear : ∀ a, ({} : FlatMemory).get a = 0 := fun a => Vector.getElem_replicate _
  have lies : ∀ x ∈ FlatMemory.spread 0 (FlatMemory.assembled [(.asl,0x10),(.rol,0x11)]),
      m.get x.1 = x.2 ∧ ∀ y ∈ ([(.asl,0x10),(.rol,0x11)] : List (Mnemonic × UInt16)), y.2 ≠ x.1 := by
    simp [FlatMemory.spread,FlatMemory.assembled,FlatMemory.absoluteOpcode,m,FlatMemory.get_set_other,clear,
      lowByte,highByte]
  obtain ⟨last,rest,shifting⟩ := executed m [(.asl,0x10),(.rol,0x11)] (by decide) lies places
  obtain ⟨value,carry⟩ := doubled last rest shifting
  have start : numberAt FlatMemory.get places {} m = 0x80C3 := by decide +kernel
  rw [start] at value carry
  exact ⟨last,rest,shifting,start,value.trans (by decide),carry.trans (by decide)⟩

end Cpu
end Famicom
