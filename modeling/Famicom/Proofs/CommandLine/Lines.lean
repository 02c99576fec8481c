import Famicom.Proofs.CommandLine.Spelling

namespace Famicom

def blanks (n : Nat) : String := String.ofList (List.replicate n ' ')

def byteRow : List UInt8 → Row
  | [] => []
  | [v] => [.hex 2 v.toNat]
  | v :: w :: rest => .hex 2 v.toNat :: " " :: byteRow (w :: rest)

def unknownRow (pc : UInt16) (opcode : UInt8) : Row := ["$",.hex 4 pc.toNat,"  ",.hex 2 opcode.toNat,"        ???"]

-- The bytes have a column of eight characters.
def knownRow (pc : UInt16) (bytes : List UInt8) (i : Instruction) : Row :=
  "$" :: .hex 4 pc.toNat :: "  " ::
    (byteRow bytes ++ [Piece.word (blanks (8 - (3 * bytes.length - 1))),"  ",i.mnemonic.name," ",i.mode.name])

def unknownLine (pc : UInt16) (opcode : UInt8) : String := s!"${hexWord pc}  {hexByte opcode}        ???"

def knownLine (pc : UInt16) (bytes : List UInt8) (i : Instruction) : String :=
  s!"${hexWord pc}  {padded 8 (bytesText bytes)}  {i.mnemonic.text} {i.mode.text}"

theorem hexByte_length (v : UInt8) : (hexByte v).length = 2 := (hexByte_spelled v).1

theorem bytesText_length (bytes : List UInt8) : (bytesText bytes).length = 3 * bytes.length - 1 := by
  induction bytes with
  | nil => rfl
  | cons v bytes ih =>
      cases bytes with
      | nil => exact hexByte_length v
      | cons w bytes =>
          rw [bytesText] at ih ⊢
          simp only [List.map_cons,String.intercalate_cons_cons,String.length_append,hexByte_length,List.length_cons]
            at ih ⊢
          rw [ih]
          show 2 + 1 + _ = _
          omega

theorem bytesText_spelled (bytes : List UInt8) : Spells (byteRow bytes) (bytesText bytes) := by
  induction bytes with
  | nil => exact .nil
  | cons v bytes ih =>
      cases bytes with
      | nil => exact .piece (hexByte_spelled v)
      | cons w bytes =>
          rw [bytesText,List.map_cons,List.map_cons,String.intercalate_cons_cons,String.append_assoc]
          exact .cons (hexByte_spelled v) (.cons rfl ih)

theorem unknownLine_spelled (pc : UInt16) (opcode : UInt8) : Spells (unknownRow pc opcode) (unknownLine pc opcode) :=
  ((((Spells.start "$").address pc).word "  ").byte opcode).word "        ???"

theorem knownLine_spelled (pc : UInt16) (bytes : List UInt8) (i : Instruction) :
    Spells (knownRow pc bytes i) (knownLine pc bytes i) := by
  have column : padded 8 (bytesText bytes) = bytesText bytes ++ blanks (8 - (3 * bytes.length - 1)) := by
    rw [padded,bytesText_length]
    rfl
  have written := ((((Spells.start "$").address pc).word "  ").append (bytesText_spelled bytes)).word
    (blanks (8 - (3 * bytes.length - 1)))
  rw [String.append_assoc,← column] at written
  rw [knownRow,← i.mnemonic.text_name,← i.mode.text_name]
  have whole := (((written.word "  ").word i.mnemonic.text).word " ").word i.mode.text
  simp only [List.append_assoc] at whole ⊢
  exact whole

def fields (cs : List Char) : List (List Char) := (cs.splitOnP (· == ' ')).filter fun field => !field.isEmpty

theorem fields_blank (cs : List Char) : fields (' ' :: cs) = fields cs := by
  rw [fields,List.splitOnP_cons_eq_if_modifyHead]
  rfl

theorem fields_blanks (n : Nat) (cs : List Char) : fields (List.replicate n ' ' ++ cs) = fields cs := by
  induction n with
  | zero => rfl
  | succ n ih => exact (fields_blank _).trans ih

theorem plain_of_solid {field : List Char} (solid : ' ' ∉ field) : ∀ c ∈ field, (c == ' ') = false := by
  intro c member
  exact beq_false_of_ne fun blank => solid (blank ▸ member)

theorem fields_last {field : List Char} (some : field ≠ []) (solid : ' ' ∉ field) : fields field = [field] := by
  rw [fields,List.splitOnP_eq_singleton (plain_of_solid solid),List.filter_cons_of_pos,List.filter_nil]
  simp [some]

theorem fields_solid {field : List Char} (some : field ≠ []) (solid : ' ' ∉ field) (cs : List Char) :
    fields (field ++ ' ' :: cs) = field :: fields cs := by
  rw [fields,List.splitOnP_append_cons_of_forall_mem (plain_of_solid solid) ' ' rfl,List.filter_cons_of_pos]
  · rfl
  · simp [some]

theorem digits_solid (width n : Nat) : ' ' ∉ digits 16 width n := by
  have solid : ∀ d < 16, ' ' ≠ digit d := by
    decide
  induction width generalizing n with
  | zero => exact List.not_mem_nil
  | succ width ih =>
      rw [digits,List.mem_append,List.mem_singleton]
      rintro (upper | last)
      · exact ih _ upper
      · exact solid _ (Nat.mod_lt _ (by decide)) last

theorem fields_numeral (width n : Nat) (cs : List Char) :
    fields ((numeral 16 (width + 1) n).toList ++ ' ' :: cs) = (numeral 16 (width + 1) n).toList :: fields cs := by
  rw [numeral,String.toList_ofList]
  exact fields_solid (List.append_ne_nil_of_right_ne_nil _ (List.cons_ne_nil _ _)) (digits_solid (width + 1) n) cs

theorem fields_address (a : UInt16) (cs : List Char) :
    fields ('$' :: ((hexWord a).toList ++ ' ' :: cs)) = ('$' :: (hexWord a).toList) :: fields cs := by
  have solid : ' ' ∉ '$' :: (hexWord a).toList := by
    rw [hexWord,numeral,String.toList_ofList,List.mem_cons]
    rintro (sign | digit)
    · cases sign
    · exact digits_solid _ _ digit
  exact fields_solid (List.cons_ne_nil _ _) solid cs

theorem fields_byte (v : UInt8) (cs : List Char) :
    fields ((hexByte v).toList ++ ' ' :: cs) = (hexByte v).toList :: fields cs := by
  rw [hexByte]
  exact fields_numeral 1 v.toNat cs

theorem fields_bytes (bytes : List UInt8) (cs : List Char) :
    fields ((bytesText bytes).toList ++ ' ' :: cs) = bytes.map (fun v => (hexByte v).toList) ++ fields cs := by
  induction bytes with
  | nil => exact fields_blank cs
  | cons v bytes ih =>
      cases bytes with
      | nil => exact fields_byte v cs
      | cons w bytes =>
          have apart : (bytesText (v :: w :: bytes)).toList = (hexByte v).toList ++ ' ' :: (bytesText (w :: bytes)).toList := by
            rw [bytesText,List.map_cons,List.map_cons,String.intercalate_cons_cons,String.toList_append,
              String.toList_append,List.append_assoc]
            rfl
          rw [apart,List.append_assoc,List.cons_append,fields_byte,ih]
          rfl

theorem sign_toList : "$".toList = ['$'] := rfl

theorem gap_toList : "  ".toList = [' ',' '] := rfl

theorem unknownLine_fields (pc : UInt16) (opcode : UInt8) :
    fields (unknownLine pc opcode).toList = ['$' :: (hexWord pc).toList,(hexByte opcode).toList,['?','?','?']] := by
  have characters : (unknownLine pc opcode).toList =
      '$' :: ((hexWord pc).toList ++ ' ' :: ' ' :: ((hexByte opcode).toList ++ ' ' ::
        (List.replicate 7 ' ' ++ ['?','?','?']))) := by
    have marks : "        ???".toList = ' ' :: (List.replicate 7 ' ' ++ ['?','?','?']) := rfl
    show ("$" ++ hexWord pc ++ "  " ++ hexByte opcode ++ "        ???").toList = _
    simp only [String.toList_append,sign_toList,gap_toList,marks,List.append_assoc,List.cons_append,List.nil_append]
  rw [characters,fields_address,fields_blank,fields_byte,fields_blanks]
  rfl

theorem knownLine_fields (pc : UInt16) (bytes : List UInt8) (i : Instruction) :
    fields (knownLine pc bytes i).toList =
      ('$' :: (hexWord pc).toList) ::
        (bytes.map (fun v => (hexByte v).toList) ++ [i.mnemonic.text.toList,i.mode.text.toList]) := by
  have padding : ∀ n cs, List.replicate n ' ' ++ ' ' :: cs = ' ' :: (List.replicate n ' ' ++ cs) := by
    intro n cs
    rw [List.append_cons,← List.replicate_succ',List.replicate_succ,List.cons_append]
  have characters : (knownLine pc bytes i).toList =
      '$' :: ((hexWord pc).toList ++ ' ' :: ' ' :: ((bytesText bytes).toList ++ ' ' ::
        (List.replicate (8 - (bytesText bytes).length) ' ' ++ ' ' :: (i.mnemonic.text.toList ++ ' ' ::
          i.mode.text.toList)))) := by
    have blank : " ".toList = [' '] := rfl
    show ("$" ++ hexWord pc ++ "  " ++ (bytesText bytes ++ String.ofList (List.replicate (8 - (bytesText bytes).length) ' ')) ++
      "  " ++ i.mnemonic.text ++ " " ++ i.mode.text).toList = _
    rw [← padding]
    simp only [String.toList_append,String.toList_ofList,sign_toList,gap_toList,blank,List.append_assoc,List.cons_append,
      List.nil_append]
  have mnemonic : i.mnemonic.text.toList ≠ [] ∧ ' ' ∉ i.mnemonic.text.toList := by
    cases i.mnemonic <;> decide
  have mode : i.mode.text.toList ≠ [] ∧ ' ' ∉ i.mode.text.toList := by
    cases i.mode <;> decide
  rw [characters,fields_address,fields_blank,fields_bytes,fields_blanks,fields_blank,
    fields_solid mnemonic.1 mnemonic.2,fields_last mode.1 mode.2]

theorem hexByte_injective {v w : UInt8} (same : hexByte v = hexByte w) : v = w := by
  have first : hexFrom? 0 (hexByte v).toList = some v.toNat := (hexByte_spelled v).2
  have second : hexFrom? 0 (hexByte w).toList = some w.toNat := (hexByte_spelled w).2
  rw [← same] at second
  exact UInt8.toNat_inj.mp (Option.some.inj (first.symm.trans second))

theorem unknownLine_injective {pc pc' : UInt16} {v w : UInt8} (same : unknownLine pc v = unknownLine pc' w) : v = w := by
  have told := congrArg (fields ·.toList) same
  rw [unknownLine_fields,unknownLine_fields] at told
  exact hexByte_injective (String.toList_inj.mp (List.cons.inj (List.cons.inj told).2).1)

theorem knownLine_injective {pc pc' : UInt16} {bytes bytes' : List UInt8} {i i' : Instruction}
    (same : knownLine pc bytes i = knownLine pc' bytes' i') :
    bytes = bytes' ∧ i.mnemonic = i'.mnemonic ∧ i.mode = i'.mode := by
  have told := congrArg (fields ·.toList) same
  rw [knownLine_fields,knownLine_fields] at told
  obtain ⟨shown,names⟩ := List.append_inj' (List.cons.inj told).2 rfl
  obtain ⟨mnemonic,rest⟩ := List.cons.inj names
  refine ⟨?_,Mnemonic.text_injective (String.toList_inj.mp mnemonic),
    Mode.text_injective (String.toList_inj.mp (List.cons.inj rest).1)⟩
  exact (List.map_inj_right fun v w alike => hexByte_injective (String.toList_inj.mp alike)).mp shown

theorem knownLine_other (pc pc' : UInt16) (bytes : List UInt8) (i : Instruction) (opcode : UInt8) :
    knownLine pc bytes i ≠ unknownLine pc' opcode := by
  intro same
  have told := congrArg (fun s => (fields s.toList).getLast?) same
  simp only [knownLine_fields,unknownLine_fields] at told
  rw [List.getLast?_cons,List.getLast?_append] at told
  have named : i.mode.text.toList = ['?','?','?'] := Option.some.inj told
  cases mode : i.mode <;> rw [mode] at named <;> cases named

end Famicom
