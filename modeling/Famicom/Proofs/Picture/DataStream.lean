import Famicom.Proofs.Console.Peeking
import Famicom.Proofs.Picture.Latch
import Famicom.Proofs.Picture.VideoMemory

namespace Famicom

open VideoCell

namespace Ppu

def stride (p : Ppu) : Nat := if hasBit p.control.bits 0x04 then 32 else 1

def streamed (p : Ppu) (i : Nat) : UInt16 := UInt16.ofNat ((p.address.toNat + i * p.stride) % 0x4000)

def placed (p : Ppu) (values : List UInt8) : List (UInt16 × UInt8) := values.mapIdx fun i v => (p.streamed i,v)

theorem stride_le (p : Ppu) : p.stride ≤ 32 := by
  unfold stride
  split <;> decide

theorem streamed_toNat (p : Ppu) (i : Nat) : (p.streamed i).toNat = (p.address.toNat + i * p.stride) % 0x4000 := by
  rw [streamed,UInt16.toNat_ofNat']
  omega

theorem streamed_lt (p : Ppu) (i : Nat) : p.streamed i < 0x4000 := by
  rw [UInt16.lt_iff_toNat_lt,streamed_toNat]
  exact Nat.mod_lt _ (by decide)

theorem streamed_zero {p : Ppu} (low : p.address < 0x4000) : p.streamed 0 = p.address := by
  rw [UInt16.lt_iff_toNat_lt] at low
  apply UInt16.toNat_inj.mp
  rw [streamed_toNat,Nat.zero_mul,Nat.add_zero]
  exact Nat.mod_eq_of_lt low

theorem streamed_congr {p q : Ppu} (control : q.control = p.control) (address : q.address = p.address) :
    q.streamed = p.streamed := by
  funext i
  rw [streamed,stride,control,address]
  rfl

theorem streamed_succ {p q : Ppu} (control : q.control = p.control) (address : q.address = p.streamed 1) (i : Nat) :
    q.streamed i = p.streamed (i + 1) := by
  have stride : q.stride = p.stride := by rw [Ppu.stride,control,Ppu.stride]
  apply UInt16.toNat_inj.mp
  rw [streamed_toNat,streamed_toNat,address,streamed_toNat,stride,Nat.one_mul,Nat.succ_mul,Nat.mod_add_mod]
  omega

theorem placed_succ {p q : Ppu} (control : q.control = p.control) (address : q.address = p.streamed 1) (v : UInt8)
    (values : List UInt8) : p.placed (v :: values) = (p.streamed 0,v) :: q.placed values := by
  simp only [placed,List.mapIdx_cons,streamed_succ control address]

theorem advance_streamed (p : Ppu) : p.advance.address = p.streamed 1 := by
  apply UInt16.toNat_inj.mp
  have step : p.control.step.toNat = p.stride := by
    unfold Control.step stride
    split <;> rfl
  have := p.stride_le
  rw [streamed_toNat,Nat.one_mul]
  simp only [advance,fold,UInt16.toNat_mod,UInt16.toNat_add,step,UInt16.reduceToNat]
  omega

theorem advance_eq (p : Ppu) : p.advance = {p with address := p.streamed 1} := by
  rw [← p.advance_streamed]
  rfl

theorem fetched_streamed (p : Ppu) (c : Cartridge) : (p.fetched c).address = p.streamed 1 := by
  rw [← p.readData_fetched c,← p.advance_streamed,readData]
  split <;> rfl

theorem streamed_fetched (p : Ppu) (c : Cartridge) (i : Nat) : (p.fetched c).streamed i = p.streamed (i + 1) :=
  streamed_succ (p := p) (q := p.fetched c) rfl (p.fetched_streamed c) i

end Ppu

namespace Bus

def writeAll (b : Bus) (stores : List (UInt16 × UInt8)) : Bus := stores.foldl (fun b x => b.write x.1 x.2) b

def storeAll (b : Bus) (stores : List (UInt16 × UInt8)) : Bus := stores.foldl (fun b x => b.writeVideo x.1 x.2) b

def answers (b : Bus) (addresses : List UInt16) : List UInt8 :=
  match addresses with
  | [] => []
  | a :: rest => (b.read a).1 :: answers (b.read a).2 rest

def heading (b : Bus) (a : UInt16) : Bus := {b with ppu := {b.ppu with address := a}}

def due (b : Bus) (k : Nat) : UInt8 :=
  let place := b.ppu.streamed
  if 0x3F00 ≤ place k then b.peekVideo (place k)
  else match k with
    | 0 => b.ppu.buffer
    | j + 1 => if place j < 0x3F00 then b.peekVideo (place j) else b.peekVideo (place j - 0x1000)

theorem read_data (b : Bus) {a : UInt16} (shows : ShowsData a) : (b.read a).2 = {b with ppu := b.ppu.fetched b.cartridge} := by
  have other : ¬ ShowsReport a := fun report => absurd (report.2.2.symm.trans shows.2.2) (by decide)
  rw [read_leaves,afterRead,if_neg other,if_pos shows]

theorem read_due (b : Bus) (low : b.ppu.address < 0x4000) {a : UInt16} (shows : ShowsData a) : (b.read a).1 = b.due 0 := by
  rw [read_peek,peek,(containing_data a).mpr shows]
  simp only [Ppu.peekRegister,due,Ppu.streamed_zero low,fold_eq low]
  rfl

-- What comes later is due to the bus that the first read leaves.
theorem due_succ (b : Bus) (low : b.ppu.address < 0x4000) (k : Nat) :
    b.due (k + 1) = due {b with ppu := b.ppu.fetched b.cartridge} k := by
  have next := b.ppu.streamed_fetched b.cartridge
  have start := Ppu.streamed_zero low
  have whole : b.ppu.address % 0x4000 = b.ppu.address := UInt16.mod_eq_of_lt low
  have same : ∀ a, peekVideo {b with ppu := b.ppu.fetched b.cartridge} a = b.peekVideo a := fun _ => rfl
  simp only [due,next,same]
  split
  · rfl
  · cases k with
    | succ j => rfl
    | zero =>
        simp only [start,Ppu.fetched,whole]
        by_cases palette : 0x3F00 ≤ b.ppu.address
        · rw [if_pos palette,if_neg (UInt16.not_lt.mpr palette)]
          rfl
        · rw [if_neg palette,if_pos (UInt16.not_le.mp palette)]
          rfl

theorem answers_due (addresses : List UInt16) : ∀ b : Bus, b.ppu.address < 0x4000 → (∀ a ∈ addresses, ShowsData a) →
    b.answers addresses = (List.range addresses.length).map b.due := by
  induction addresses with
  | nil => exact fun _ _ _ => rfl
  | cons a rest ih =>
      intro b low all
      obtain ⟨shows,others⟩ := List.forall_mem_cons.mp all
      let after : Bus := {b with ppu := b.ppu.fetched b.cartridge}
      have lowAfter : after.ppu.address < 0x4000 := by
        have address : after.ppu.address = b.ppu.streamed 1 := b.ppu.fetched_streamed b.cartridge
        rw [address]
        exact b.ppu.streamed_lt 1
      have later : after.due = b.due ∘ Nat.succ := by
        funext k
        exact (b.due_succ low k).symm
      rw [answers,b.read_due low shows,b.read_data shows,ih after lowAfter others,later,List.length_cons,
        List.range_succ_eq_map,List.map_cons,List.map_map]

theorem write_data (b : Bus) {a : UInt16} (v : UInt8) (shows : ShowsData a) (low : b.ppu.address < 0x4000) :
    b.write a v = (b.writeVideo b.ppu.address v).heading (b.ppu.streamed 1) := by
  obtain ⟨own,_⟩ := write_rest b.ppu b.cartridge b.ppu.address v
  have control : (b.ppu.write b.cartridge b.ppu.address v).1.control = b.ppu.control := by rw [own]
  have address : (b.ppu.write b.cartridge b.ppu.address v).1.address = b.ppu.address := by rw [own]
  rw [write,(containing_data a).mpr shows]
  simp only [Ppu.writeRegister,fold_eq low,Ppu.advance_eq,Ppu.streamed_congr control address]
  rfl

theorem heading_heading (b : Bus) (a a' : UInt16) : (b.heading a).heading a' = b.heading a' := rfl

-- Where the next access goes makes no difference to a store at a given address.
theorem writeVideo_heading (b : Bus) (a x : UInt16) (v : UInt8) :
    (b.heading a).writeVideo x v = (b.writeVideo x v).heading a := by
  simp only [heading,writeVideo,Ppu.write]
  split
  · rfl
  · split <;> rfl

theorem storeAll_heading (stores : List (UInt16 × UInt8)) : ∀ (b : Bus) (a : UInt16),
    (b.heading a).storeAll stores = (b.storeAll stores).heading a := by
  induction stores with
  | nil => exact fun _ _ => rfl
  | cons x rest ih =>
      intro b a
      simp only [storeAll,List.foldl_cons,writeVideo_heading]
      exact ih _ a

theorem writeVideo_control (b : Bus) (a : UInt16) (v : UInt8) : (b.writeVideo a v).ppu.control = b.ppu.control := by
  rw [writeVideo,(write_rest b.ppu b.cartridge a v).1]

theorem writeAll_data (stores : List (UInt16 × UInt8)) : ∀ b : Bus, b.ppu.address < 0x4000 →
    (∀ x ∈ stores, ShowsData x.1) →
    b.writeAll stores = (b.storeAll (b.ppu.placed (stores.map Prod.snd))).heading (b.ppu.streamed stores.length) := by
  induction stores with
  | nil =>
      intro b low _
      rw [List.length_nil,Ppu.streamed_zero low]
      rfl
  | cons x rest ih =>
      intro b low all
      obtain ⟨shows,others⟩ := List.forall_mem_cons.mp all
      let stored := b.writeVideo b.ppu.address x.2
      let after := stored.heading (b.ppu.streamed 1)
      have control : after.ppu.control = b.ppu.control := b.writeVideo_control _ _
      -- By induction on the writes: the later ones go along the stream that begins one stride on.
      have next : ∀ i, after.ppu.streamed i = b.ppu.streamed (i + 1) := Ppu.streamed_succ control rfl
      have places := Ppu.placed_succ (p := b.ppu) (q := after.ppu) control rfl x.2 (rest.map Prod.snd)
      have first : b.writeAll (x :: rest) = after.writeAll rest := by
        rw [writeAll,List.foldl_cons,b.write_data x.2 shows low]
        rfl
      calc b.writeAll (x :: rest)
        _ = after.writeAll rest := first
        _ = (after.storeAll (after.ppu.placed (rest.map Prod.snd))).heading (after.ppu.streamed rest.length) :=
          ih after (b.ppu.streamed_lt 1) others
        _ = (stored.storeAll (after.ppu.placed (rest.map Prod.snd))).heading (b.ppu.streamed (rest.length + 1)) := by
          rw [next,storeAll_heading,heading_heading]
        _ = (b.storeAll (b.ppu.placed ((x :: rest).map Prod.snd))).heading (b.ppu.streamed (x :: rest).length) := by
          rw [List.map_cons,places,Ppu.streamed_zero low]
          rfl

theorem writeVideo_named (b : Bus) (a : UInt16) (v : UInt8) : named (b.writeVideo a v).cartridge = named b.cartridge :=
  write_named b.ppu b.cartridge a v

theorem writeVideo_keeps (b : Bus) (a : UInt16) (v : UInt8) : keeps (b.writeVideo a v).cartridge = keeps b.cartridge := by
  obtain ⟨_,rest,size⟩ := write_rest b.ppu b.cartridge a v
  have chr : (b.writeVideo a v).cartridge.chr.size = b.cartridge.chr.size := size
  have fixed : (b.writeVideo a v).cartridge.chrWritable = b.cartridge.chrWritable := by rw [writeVideo,rest]
  funext cell
  cases cell with
  | pattern offset => rw [keeps,keeps,writable,writable,present,present,chr,fixed]
  | nametable | palette => rfl

theorem storeAll_other (stores : List (UInt16 × UInt8)) (a : UInt16) : ∀ b : Bus,
    (∀ x ∈ stores, named b.cartridge a ≠ named b.cartridge x.1) → (b.storeAll stores).peekVideo a = b.peekVideo a := by
  induction stores with
  | nil => exact fun _ _ => rfl
  | cons x rest ih =>
      intro b apart
      obtain ⟨here,others⟩ := List.forall_mem_cons.mp apart
      have later := ih (b.writeVideo x.1 x.2) (by rwa [writeVideo_named])
      have now : (b.writeVideo x.1 x.2).peekVideo a = b.peekVideo a := by
        rw [peekVideo,writeVideo,read_marked,if_neg fun hit => here hit.1]
        rfl
      exact later.trans now

theorem storeAll_same (stores : List (UInt16 × UInt8)) : ∀ b : Bus,
    stores.Pairwise (fun x y => named b.cartridge x.1 ≠ named b.cartridge y.1) →
    ∀ x ∈ stores, keeps b.cartridge (named b.cartridge x.1) = true →
      (b.storeAll stores).peekVideo x.1 = kept (named b.cartridge x.1) x.2 := by
  induction stores with
  | nil => exact fun _ _ _ among => absurd among List.not_mem_nil
  | cons y rest ih =>
      intro b apart x among keeping
      obtain ⟨here,others⟩ := List.pairwise_cons.mp apart
      have names := b.writeVideo_named y.1 y.2
      rcases List.mem_cons.mp among with rfl | later
      · have stays := storeAll_other rest x.1 (b.writeVideo x.1 x.2) (by rwa [names])
        refine stays.trans ?_
        rw [peekVideo,writeVideo,read_marked,if_pos ⟨rfl,keeping⟩]
      · have told := ih (b.writeVideo y.1 y.2) (by rwa [names]) x later (by rwa [names,writeVideo_keeps])
        rwa [names] at told

theorem storeAll_own (stores : List (UInt16 × UInt8)) : ∀ b : Bus, (b.storeAll stores).ppu =
    {b.ppu with vram := (b.storeAll stores).ppu.vram,palette := (b.storeAll stores).ppu.palette} := by
  induction stores with
  | nil => exact fun _ => rfl
  | cons x rest ih =>
      intro b
      obtain ⟨own,_⟩ := write_rest b.ppu b.cartridge x.1 x.2
      have later := ih (b.writeVideo x.1 x.2)
      have now : (b.writeVideo x.1 x.2).ppu = {b.ppu with
        vram := (b.writeVideo x.1 x.2).ppu.vram
        palette := (b.writeVideo x.1 x.2).ppu.palette} := own
      rw [now] at later
      exact later

theorem peekVideo_congr {b b' : Bus} (vram : b'.ppu.vram = b.ppu.vram) (palette : b'.ppu.palette = b.ppu.palette)
    (cartridge : b'.cartridge = b.cartridge) : b'.peekVideo = b.peekVideo := by
  funext a
  rw [peekVideo,Ppu.read,vram,palette,cartridge]
  rfl

theorem kept_below {c : Cartridge} {a : UInt16} (below : a < 0x3F00) (v : UInt8) : kept (named c a) v = v := by
  cases cell : named c a with
  | pattern | nametable => rfl
  | palette i =>
      have whole : a % 0x4000 = a := UInt16.mod_eq_of_lt (UInt16.lt_trans below (by decide))
      have above := (palette_above c a).mp ⟨i,cell⟩
      rw [whole] at above
      exact absurd below above

def aimed (b : Bus) (report high low : UInt16) (v w : UInt8) : Bus := ((b.read report).2.write high v).write low w

theorem aimed_eq (b : Bus) {report high low : UInt16} (v w : UInt8) (shows : ShowsReport report)
    (first : Region.containing high = .register .address) (second : Region.containing low = .register .address) :
    b.aimed report high low v w = heading {b with ppu := b.ppu.reported} (word w (v % 0x40)) := by
  rw [aimed,read_leaves,afterRead,if_pos shows,write,write,first,second]
  simp only [Ppu.writeRegister,Ppu.reported,Bool.false_eq_true,if_false,if_true,highByte_word]
  rfl

-- What is stored in cells that are all different comes back, one read late.
theorem answers_stored (b : Bus) (values : List UInt8) (addresses : List UInt16) (low : b.ppu.address < 0x4000)
    (shows : ∀ a ∈ addresses, ShowsData a) (length : addresses.length = values.length + 1)
    (below : ∀ i ≤ values.length, b.ppu.streamed i < 0x3F00)
    (held : ∀ i (inside : i < values.length), b.peekVideo (b.ppu.streamed i) = values[i]) :
    b.answers addresses = b.ppu.buffer :: values := by
  rw [answers_due addresses b low shows,length,List.range_succ_eq_map,List.map_cons,List.map_map]
  congr 1
  · have first := below 0 (Nat.zero_le _)
    rw [due,if_neg (UInt16.not_le.mpr first)]
  · apply List.ext_getElem
    · rw [List.length_map,List.length_range]
    · intro i _ inside
      have here := below i (Nat.le_of_lt inside)
      have next := below (i + 1) inside
      rw [List.getElem_map,List.getElem_range,Function.comp_apply,due,if_neg (UInt16.not_le.mpr next)]
      simp only [if_pos here]
      exact held i inside

theorem answers_rewound {b gone : Bus} (values : List UInt8) (addresses : List UInt16) (low : b.ppu.address < 0x4000)
    (shows : ∀ a ∈ addresses, ShowsData a) (length : addresses.length = values.length + 1)
    (below : ∀ i ≤ values.length, b.ppu.streamed i < 0x3F00)
    (held : ∀ i (inside : i < values.length), gone.peekVideo (b.ppu.streamed i) = values[i])
    (control : gone.ppu.control = b.ppu.control) (buffer : gone.ppu.buffer = b.ppu.buffer) :
    (heading {gone with ppu := gone.ppu.reported} b.ppu.address).answers addresses = b.ppu.buffer :: values := by
  let after := heading {gone with ppu := gone.ppu.reported} b.ppu.address
  have stream : after.ppu.streamed = b.ppu.streamed := Ppu.streamed_congr control rfl
  have seen : after.peekVideo = gone.peekVideo := peekVideo_congr rfl rfl rfl
  rw [← buffer]
  apply after.answers_stored values addresses low shows length
  · rwa [stream]
  · rwa [stream,seen]

-- A stretch of the stream below the palette, through cells that are all different and keep what is stored in them.
structure Uploads (b : Bus) (n : Nat) : Prop where
  below : ∀ i ≤ n, b.ppu.streamed i < 0x3F00
  keeping : ∀ i < n, keeps b.cartridge (named b.cartridge (b.ppu.streamed i)) = true
  apart : ∀ j < n, ∀ i < j, named b.cartridge (b.ppu.streamed i) ≠ named b.cartridge (b.ppu.streamed j)

theorem Uploads.held {b : Bus} {values : List UInt8} (uploads : b.Uploads values.length) (i : Nat)
    (inside : i < values.length) : (b.storeAll (b.ppu.placed values)).peekVideo (b.ppu.streamed i) = values[i] := by
  have size : (b.ppu.placed values).length = values.length := List.length_mapIdx
  have among : (b.ppu.streamed i,values[i]) ∈ b.ppu.placed values := List.mem_mapIdx.mpr ⟨i,inside,rfl⟩
  have distinct : (b.ppu.placed values).Pairwise fun x y => named b.cartridge x.1 ≠ named b.cartridge y.1 := by
    rw [List.pairwise_iff_getElem]
    intro j k _ within less
    rw [size] at within
    simp only [Ppu.placed,List.getElem_mapIdx]
    exact uploads.apart k within j less
  have told := storeAll_same _ b distinct _ among (uploads.keeping i inside)
  rwa [kept_below (uploads.below i (Nat.le_of_lt inside))] at told

-- Writes store one after another along the stream, reads deliver what is due along it, and what has been written comes
-- back when the address is set to where it was, behind the byte that was waiting.
theorem streams_told (b : Bus) (low : b.ppu.address < 0x4000) :
    (∀ stores, (∀ x ∈ stores, ShowsData x.1) →
      b.writeAll stores = (b.storeAll (b.ppu.placed (stores.map Prod.snd))).heading (b.ppu.streamed stores.length)) ∧
    (∀ addresses, (∀ a ∈ addresses, ShowsData a) →
      b.answers addresses = (List.range addresses.length).map b.due) ∧
    ∀ stores addresses, (∀ x ∈ stores, ShowsData x.1) → (∀ a ∈ addresses, ShowsData a) →
      addresses.length = stores.length + 1 → b.Uploads stores.length →
      ∀ report high low v w, ShowsReport report → Region.containing high = .register .address →
        Region.containing low = .register .address → word w (v % 0x40) = b.ppu.address →
        ((b.writeAll stores).aimed report high low v w).answers addresses = b.ppu.buffer :: stores.map Prod.snd := by
  refine ⟨fun stores all => writeAll_data stores b low all,fun addresses all => answers_due addresses b low all,?_⟩
  intro stores addresses written read length uploads report high low' v w shows first second back
  have size : stores.length = (stores.map Prod.snd).length := (List.length_map _).symm
  rw [writeAll_data stores b low written,aimed_eq _ v w shows first second,back]
  rw [size] at length uploads
  have own := storeAll_own (b.ppu.placed (stores.map Prod.snd)) b
  have control : (b.storeAll (b.ppu.placed (stores.map Prod.snd))).ppu.control = b.ppu.control := by rw [own]
  have buffer : (b.storeAll (b.ppu.placed (stores.map Prod.snd))).ppu.buffer = b.ppu.buffer := by rw [own]
  exact answers_rewound _ addresses low read length uploads.below uploads.held control buffer

-- A stream in strides of a row, from the last of the patterns into a nametable, and one around the end of the palette.
def crossing : Bus where
  ram := Vector.replicate _ 0
  ppu := {Ppu.powerOn with control := ⟨0x04⟩,address := 0x1FE0,buffer := 0x77}
  cartridge := .doubled

def rounding : Bus := {crossing with ppu := {crossing.ppu with control := ⟨0x00⟩,address := 0x3FFE}}

theorem crossing_told :
    crossing.ppu.address < 0x4000 ∧ rounding.ppu.address < 0x4000 ∧ crossing.Uploads 2 ∧
      crossing.writeAll [(0x2007,0x11),(0x200F,0x22)] =
        ((crossing.writeVideo 0x1FE0 0x11).writeVideo 0x2000 0x22).heading 0x2020 ∧
      ((crossing.writeAll [(0x2007,0x11),(0x200F,0x22)]).aimed 0x2002 0x2006 0x3FFE 0xDF 0xE0).answers
        [0x2007,0x3FFF,0x2007] = [0x77,0x11,0x22] ∧
      rounding.answers [0x2007,0x2007,0x2007] = [0x0E,0x0F,0] := by
  have low : crossing.ppu.address < 0x4000 := by decide
  have high : rounding.ppu.address < 0x4000 := by decide
  have whole : crossing.cartridge.Whole :=
    (Cartridge.load_loaded Cartridge.load_patternless).whole.used (.rebanked _ rfl)
  have uploads : crossing.Uploads 2 := by
    refine ⟨by decide,?_,by decide⟩
    simp only [keeps_whole whole]
    decide
  have stores : ∀ x ∈ [((0x2007 : UInt16),(0x11 : UInt8)),(0x200F,0x22)], ShowsData x.1 := by
    simp only [List.forall_mem_cons,List.not_mem_nil,false_implies,implies_true,and_true]
    decide
  have mirrored : ∀ a ∈ [(0x2007 : UInt16),0x3FFF,0x2007], ShowsData a := by
    simp only [List.forall_mem_cons,List.not_mem_nil,false_implies,implies_true,and_true]
    decide
  have loads : ∀ a ∈ [(0x2007 : UInt16),0x2007,0x2007], ShowsData a := by
    simp only [List.forall_mem_cons,List.not_mem_nil,false_implies,implies_true,and_true]
    decide
  obtain ⟨written,_,back⟩ := streams_told crossing low
  obtain ⟨_,read,_⟩ := streams_told rounding high
  refine ⟨low,high,uploads,?_,?_,?_⟩
  · have places : crossing.ppu.placed [0x11,0x22] = [(0x1FE0,0x11),(0x2000,0x22)] := by decide
    have last : crossing.ppu.streamed 2 = 0x2020 := by decide
    have told : crossing.writeAll [(0x2007,0x11),(0x200F,0x22)] =
        (crossing.storeAll (crossing.ppu.placed [0x11,0x22])).heading (crossing.ppu.streamed 2) :=
      written _ stores
    rw [told,places,last]
    rfl
  · exact back _ _ stores mirrored rfl uploads 0x2002 0x2006 0x3FFE 0xDF 0xE0 (by decide) (by decide) (by decide)
      (by decide)
  · rw [read _ loads]
    decide +kernel

end Bus
end Famicom
