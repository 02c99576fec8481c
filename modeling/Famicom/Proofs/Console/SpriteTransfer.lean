import Famicom.Proofs.Picture.DataStream

namespace Famicom

namespace Ppu

def oamAfter (p : Ppu) (start : UInt8) (i : Nat) : UInt8 := p.oam.get (.ofNat 0x100 (start.toNat + i))

theorem oamPlace {p : Ppu} {start : UInt8} {n : Nat} (here : p.oamAddress = start + UInt8.ofNat n) :
    p.oamAddress.toFin = .ofNat 0x100 (start.toNat + n) := by
  apply Fin.eq_of_val_eq
  change p.oamAddress.toNat = (start.toNat + n) % 256
  rw [here,UInt8.toNat_add,UInt8.toNat_ofNat']
  omega

theorem storeOam_after (p : Ppu) (v start : UInt8) {i n : Nat} (here : p.oamAddress = start + UInt8.ofNat n)
    (within : i < 256) (before : n < 256) :
    (p.storeOam v).oamAfter start i = if i = n then v else p.oamAfter start i := by
  have same : (Fin.ofNat 0x100 (start.toNat + n)).val = (Fin.ofNat 0x100 (start.toNat + i)).val ↔ i = n := by
    rw [Fin.val_ofNat,Fin.val_ofNat]
    omega
  simp only [oamAfter,storeOam,oamPlace here,Bus.get_set,same]

end Ppu

namespace Bus

def pageByte (page : UInt8) (i : Nat) : UInt16 := UInt16.ofNat (page.toNat * 256 + i)

theorem afterRead_oam (b : Bus) (a : UInt16) :
    (b.afterRead a).ppu.oamAddress = b.ppu.oamAddress ∧ (b.afterRead a).ppu.oam = b.ppu.oam := by
  unfold afterRead
  split
  · exact ⟨rfl,rfl⟩
  · split <;> exact ⟨rfl,rfl⟩

-- One pair: the processor reads a byte of the page and writes it to the port of sprite memory.
def paired (page : UInt8) (i : Nat) (b : Bus) : Bus :=
  (b.read (pageByte page i)).2.write 0x2004 (b.read (pageByte page i)).1

def pairedUpTo (b : Bus) (page : UInt8) (n : Nat) : Bus := Nat.fold n (fun i _ b => paired page i b) b

theorem pairedUpTo_succ (b : Bus) (page : UInt8) (n : Nat) :
    b.pairedUpTo page (n + 1) = paired page n (b.pairedUpTo page n) := Nat.fold_succ ..

theorem paired_eq (page : UInt8) (i : Nat) (b : Bus) :
    paired page i b = {b.afterRead (pageByte page i) with
      ppu := (b.afterRead (pageByte page i)).ppu.storeOam (b.peek (pageByte page i))} := by
  rw [paired,read_leaves,read_peek]
  rfl

theorem pageByte_toNat (page : UInt8) {i : Nat} (within : i < 256) : (pageByte page i).toNat = page.toNat * 256 + i := by
  have := page.toNat_lt
  rw [pageByte,UInt16.toNat_ofNat']
  omega

theorem transferByte_paired (page : UInt8) {i : Nat} (within : i < 256) (b : Bus) :
    transferByte page i b = paired page i b := by
  have same : word (UInt8.ofNat i) page = pageByte page i := by
    apply UInt16.toNat_inj.mp
    rw [word_toNat,pageByte_toNat page within,UInt8.toNat_ofNat']
    omega
  rw [transferByte,same]
  rfl

theorem transfer_paired (b : Bus) (page : UInt8) :
    b.transfer page = {b.pairedUpTo page 256 with stall := b.stall + transferCycles} := by
  have copied : ∀ n ≤ 256, Nat.fold n (fun i _ b => transferByte page i b) b = b.pairedUpTo page n := by
    intro n
    induction n with
    | zero => exact fun _ => rfl
    | succ n ih =>
        intro within
        rw [Nat.fold_succ,pairedUpTo_succ,ih (Nat.le_of_succ_le within),transferByte_paired page within]
  have stall := b.transfer_stall page
  rw [transfer,copied 256 (Nat.le_refl _)] at stall ⊢
  simp only at stall
  rw [stall]

section
variable (b : Bus) (page : UInt8)

theorem pairedUpTo_address (n : Nat) :
    (b.pairedUpTo page n).ppu.oamAddress = b.ppu.oamAddress + UInt8.ofNat n := by
  induction n with
  | zero => exact (UInt8.add_zero _).symm
  | succ n ih =>
      have spared := (b.pairedUpTo page n).afterRead_oam (pageByte page n)
      rw [pairedUpTo_succ,paired_eq,UInt8.ofNat_add,← UInt8.add_assoc,← ih,← spared.1]
      rfl

-- Each place has what its own read delivered, and before its turn what was there at the start.
theorem pairedUpTo_oam {i : Nat} (within : i < 256) : ∀ n ≤ 256,
    (b.pairedUpTo page n).ppu.oamAfter b.ppu.oamAddress i =
      if i < n then (b.pairedUpTo page i).peek (pageByte page i) else b.ppu.oamAfter b.ppu.oamAddress i := by
  intro n
  induction n with
  | zero => exact fun _ => rfl
  | succ n ih =>
      intro inside
      have before := ih (Nat.le_of_succ_le inside)
      obtain ⟨address,oam⟩ := (b.pairedUpTo page n).afterRead_oam (pageByte page n)
      have here := address.trans (b.pairedUpTo_address page n)
      have unread : ((b.pairedUpTo page n).afterRead (pageByte page n)).ppu.oamAfter b.ppu.oamAddress i =
          (b.pairedUpTo page n).ppu.oamAfter b.ppu.oamAddress i := by
        rw [Ppu.oamAfter,oam]
        rfl
      rw [pairedUpTo_succ,paired_eq]
      simp only [Ppu.storeOam_after _ _ _ here within inside,unread,before]
      by_cases last : i = n
      · rw [if_pos last,if_pos (by omega),last]
      · have same : i < n + 1 ↔ i < n := by omega
        simp only [if_neg last,same]

end

theorem pageByte_port (page : UInt8) {i : Nat} (within : i < 256) :
    (0x2000 ≤ pageByte page i ∧ pageByte page i < 0x4000) ↔ 0x20 ≤ page ∧ page < 0x40 := by
  rw [UInt16.le_iff_toNat_le,UInt16.lt_iff_toNat_lt,UInt8.le_iff_toNat_le,UInt8.lt_iff_toNat_lt,
    pageByte_toNat page within]
  simp only [UInt16.reduceToNat,UInt8.reduceToNat]
  omega

theorem pageByte_place (page : UInt8) {i : Nat} (within : i < 256) : (pageByte page i).toNat % 8 = i % 8 := by
  rw [pageByte_toNat page within]
  omega

-- Where no register answers, the picture processor has no say in what is read.
theorem peek_apart (b : Bus) (p : Ppu) {a : UInt16} (apart : ¬ (0x2000 ≤ a ∧ a < 0x4000)) :
    peek {b with ppu := p} a = b.peek a := by
  have bounds := containing_bounds a
  rw [peek,peek]
  cases region : Region.containing a with
  | register register =>
      rw [region] at bounds
      exact absurd bounds apart
  | work | transfer | unwired | save | program => rfl

-- From a page that is not the registers', reading leaves no traces, and what is stored does not show in what is read.
theorem pairedUpTo_plain (b : Bus) {page : UInt8} (plain : ¬ (0x20 ≤ page ∧ page < 0x40)) : ∀ n ≤ 256,
    b.pairedUpTo page n = {b with ppu := {b.ppu with
      oam := (b.pairedUpTo page n).ppu.oam
      oamAddress := (b.pairedUpTo page n).ppu.oamAddress}} := by
  intro n
  induction n with
  | zero => exact fun _ => rfl
  | succ n ih =>
      intro inside
      have apart : ¬ (0x2000 ≤ pageByte page n ∧ pageByte page n < 0x4000) := by rwa [pageByte_port page inside]
      have quiet : ∀ b : Bus, b.afterRead (pageByte page n) = b := by
        intro b
        rw [afterRead,if_neg fun shows => apart ⟨shows.1,shows.2.1⟩,if_neg fun shows => apart ⟨shows.1,shows.2.1⟩]
      rw [pairedUpTo_succ,paired_eq,quiet]
      rw [ih (Nat.le_of_succ_le inside)]
      rfl

structure Polled (b : Bus) (n : Nat) (after : Bus) : Prop where
  control : after.ppu.control = b.ppu.control
  streamed : ∀ i, after.ppu.streamed i = b.ppu.streamed (i + n / 8)
  reported : 2 < n → after.ppu.report.vblank = false ∧ after.ppu.latch = false

namespace Polled

variable {b after : Bus} {n : Nat} {page : UInt8}

theorem start (b : Bus) : b.Polled 0 b := ⟨rfl,fun _ => rfl,fun before => absurd before (by decide)⟩

theorem stored (polled : b.Polled n after) (v : UInt8) : b.Polled n {after with ppu := after.ppu.storeOam v} where
  control := polled.control
  streamed i := (congrFun (Ppu.streamed_congr rfl rfl) i).trans (polled.streamed i)
  reported := polled.reported

-- Every eighth read is of the report, every eighth of video data, and those between leave no traces.
theorem next (polled : b.Polled n after) (within : n < 256) (port : 0x20 ≤ page ∧ page < 0x40) :
    b.Polled (n + 1) (paired page n after) := by
  obtain ⟨above,below⟩ := (pageByte_port page within).mpr port
  have place := pageByte_place page within
  rw [paired_eq]
  refine stored ?_ _
  rw [afterRead]
  by_cases report : n % 8 = 2
  · have shows : ShowsReport (pageByte page n) := ⟨above,below,place.trans report⟩
    have stays : (n + 1) / 8 = n / 8 := by omega
    rw [if_pos shows]
    exact ⟨polled.control,fun i => stays ▸ polled.streamed i,fun _ => ⟨rfl,rfl⟩⟩
  have other : ¬ ShowsReport (pageByte page n) := fun shows => report (place.symm.trans shows.2.2)
  rw [if_neg other]
  by_cases data : n % 8 = 7
  · have shows : ShowsData (pageByte page n) := ⟨above,below,place.trans data⟩
    rw [if_pos shows]
    refine ⟨polled.control,?_,fun _ => polled.reported (by omega)⟩
    intro i
    -- A read of the data moves the address, so that what was the place after next is the next one.
    have onward : (i + 1) + n / 8 = i + (n + 1) / 8 := by omega
    rw [← onward,← polled.streamed]
    exact after.ppu.streamed_fetched after.cartridge i
  · have quiet : ¬ ShowsData (pageByte page n) := fun shows => data (place.symm.trans shows.2.2)
    have stays : (n + 1) / 8 = n / 8 := by omega
    rw [if_neg quiet]
    exact ⟨polled.control,fun i => stays ▸ polled.streamed i,fun before => polled.reported (by omega)⟩

theorem pairedUpTo (b : Bus) (port : 0x20 ≤ page ∧ page < 0x40) : ∀ n ≤ 256, b.Polled n (b.pairedUpTo page n) := by
  intro n
  induction n with
  | zero => exact fun _ => start b
  | succ n ih =>
      intro inside
      rw [pairedUpTo_succ]
      exact (ih (Nat.le_of_succ_le inside)).next inside port

end Polled

theorem Polled.address {b after : Bus} {n : Nat} {page : UInt8} (polled : b.Polled n after) (within : n < 256)
    (port : 0x20 ≤ page ∧ page < 0x40) (data : n % 8 = 7) :
    (paired page n after).ppu.address = b.ppu.streamed (1 + n / 8) := by
  obtain ⟨above,below⟩ := (pageByte_port page within).mpr port
  have shows : ShowsData (pageByte page n) := ⟨above,below,(pageByte_place page within).trans data⟩
  rw [paired,read_data _ shows,← polled.streamed]
  exact after.ppu.fetched_streamed after.cartridge

theorem pairedUpTo_itself (b : Bus) {page : UInt8} (port : 0x20 ≤ page ∧ page < 0x40) {i : Nat} (within : i < 256)
    (itself : i % 8 = 4) :
    (b.pairedUpTo page i).peek (pageByte page i) = b.ppu.oamAfter b.ppu.oamAddress i := by
  have selected : Ppu.Register.selected (pageByte page i) = .oamData := by
    rw [Ppu.Register.selected,pageByte_place page within,itself]
    rfl
  have filled := b.pairedUpTo_oam page within i (Nat.le_of_lt within)
  rw [if_neg (Nat.lt_irrefl i)] at filled
  rw [← filled,peek,containing_port ((pageByte_port page within).mpr port),selected]
  rw [Ppu.oamAfter,← Ppu.oamPlace (b.pairedUpTo_address page i)]
  rfl

theorem dataReads (page : UInt8) (port : 0x20 ≤ page ∧ page < 0x40) :
    (List.range 256).countP (fun i => ShowsData (pageByte page i)) = 32 := by
  have same : ∀ i ∈ List.range 256, decide (ShowsData (pageByte page i)) = true ↔ decide (i % 8 = 7) = true := by
    intro i among
    have within := List.mem_range.mp among
    obtain ⟨above,below⟩ := (pageByte_port page within).mpr port
    rw [decide_eq_true_eq,decide_eq_true_eq,ShowsData,pageByte_place page within]
    exact ⟨fun shows => shows.2.2,fun last => ⟨above,below,last⟩⟩
  rw [List.countP_congr same]
  decide +kernel

-- A transfer is its pairs and a stall. A page of memory is copied, and nothing else happens. A page of the registers is
-- read as by any program.
theorem transfer_told (b : Bus) (page : UInt8) :
    let after := b.write 0x4014 page
    let start := b.ppu.oamAddress
    after = {b.pairedUpTo page 256 with stall := b.stall + 513} ∧ after.ppu.oamAddress = start ∧
      (¬ (0x20 ≤ page ∧ page < 0x40) →
        (∀ i < 256, after.ppu.oamAfter start i = b.peek (pageByte page i)) ∧
        after = {b with ppu := {b.ppu with oam := after.ppu.oam},stall := b.stall + 513}) ∧
      (0x20 ≤ page ∧ page < 0x40 →
        (List.range 256).countP (fun i => ShowsData (pageByte page i)) = 32 ∧
        after.ppu.address = b.ppu.streamed 32 ∧ after.ppu.report.vblank = false ∧ after.ppu.latch = false ∧
        ∀ i < 256, i % 8 = 4 → after.ppu.oamAfter start i = b.ppu.oamAfter start i) := by
  intro after start
  have whole : after = {b.pairedUpTo page 256 with stall := b.stall + 513} := b.transfer_paired page
  have address : (b.pairedUpTo page 256).ppu.oamAddress = start :=
    (b.pairedUpTo_address page 256).trans (UInt8.add_zero _)
  -- Each place holds what its own read delivered, at the state that the pairs before it have left.
  have filled : ∀ i < 256, after.ppu.oamAfter start i = (b.pairedUpTo page i).peek (pageByte page i) := by
    intro i within
    have told := b.pairedUpTo_oam page within 256 (Nat.le_refl _)
    rw [if_pos within] at told
    rw [whole]
    exact told
  refine ⟨whole,by rw [whole]; exact address,?_,?_⟩
  · intro plain
    refine ⟨?_,?_⟩
    · intro i within
      have apart : ¬ (0x2000 ≤ pageByte page i ∧ pageByte page i < 0x4000) := by rwa [pageByte_port page within]
      rw [filled i within,b.pairedUpTo_plain plain i (Nat.le_of_lt within)]
      exact b.peek_apart _ apart
    · have rest := b.pairedUpTo_plain plain 256 (Nat.le_refl _)
      rw [address] at rest
      rw [whole]
      exact congrArg (fun b' : Bus => {b' with stall := b.stall + 513}) rest
  · intro port
    obtain ⟨vblank,latch⟩ := (Polled.pairedUpTo b port 256 (Nat.le_refl _)).reported (by decide)
    -- The last of the 256 reads is of video data, and it leaves the address where the whole stream does.
    have last := (Polled.pairedUpTo b port 255 (by decide)).address (by decide) port rfl
    rw [← pairedUpTo_succ] at last
    rw [whole] at filled ⊢
    refine ⟨dataReads page port,last,vblank,latch,?_⟩
    intro i within itself
    exact (filled i within).trans (b.pairedUpTo_itself port within itself)

def halfway : Bus where
  ram := (Vector.replicate _ 0).setIfInBounds 0x205 0x42
  ppu := {Ppu.powerOn with
    oam := (Vector.replicate _ 0).setIfInBounds 2 0x5A
    control := ⟨0x04⟩
    report := {vblank := true}
    oamAddress := 0xFE
    address := 0x3FE0
    latch := true}
  cartridge := .doubled

theorem halfway_transfers :
    ¬ (0x20 ≤ (0x0A : UInt8) ∧ (0x0A : UInt8) < 0x40) ∧ (0x20 ≤ (0x3F : UInt8) ∧ (0x3F : UInt8) < 0x40) ∧
      (halfway.write 0x4014 0x0A).ppu.oamAfter 0xFE 5 = 0x42 ∧ (halfway.write 0x4014 0x0A).stall = 513 ∧
      (halfway.write 0x4014 0x0A).ppu.address = 0x3FE0 ∧
      (halfway.write 0x4014 0x3F).ppu.oamAddress = 0xFE ∧ (halfway.write 0x4014 0x3F).ppu.address = 0x03E0 ∧
      (halfway.write 0x4014 0x3F).ppu.report.vblank = false ∧ (halfway.write 0x4014 0x3F).ppu.latch = false ∧
      (halfway.write 0x4014 0x3F).ppu.oamAfter 0xFE 4 = 0x5A := by
  have plain : ¬ (0x20 ≤ (0x0A : UInt8) ∧ (0x0A : UInt8) < 0x40) := by decide
  have port : 0x20 ≤ (0x3F : UInt8) ∧ (0x3F : UInt8) < 0x40 := by decide
  obtain ⟨_,_,memory,_⟩ := transfer_told halfway 0x0A
  obtain ⟨_,place,_,registers⟩ := transfer_told halfway 0x3F
  obtain ⟨copied,rest⟩ := memory plain
  obtain ⟨_,address,vblank,latch,itself⟩ := registers port
  refine ⟨plain,port,(copied 5 (by decide)).trans ?_,by rw [rest]; rfl,by rw [rest]; rfl,place,address.trans ?_,vblank,
    latch,(itself 4 (by decide) (by decide)).trans ?_⟩
  · decide +kernel
  · decide
  · decide +kernel

end Bus
end Famicom
