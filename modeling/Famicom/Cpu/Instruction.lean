namespace Famicom

inductive Mnemonic where
  | lda | ldx | ldy | sta | stx | sty
  | tax | tay | tsx | txa | txs | tya
  | pha | php | pla | plp
  | and | eor | ora | bit
  | adc | sbc | cmp | cpx | cpy
  | inc | inx | iny | dec | dex | dey
  | asl | lsr | rol | ror
  | jmp | jsr | rts
  | bcc | bcs | beq | bmi | bne | bpl | bvc | bvs
  | clc | cld | cli | clv | sec | sed | sei
  | brk | nop | rti
  deriving DecidableEq, Repr

def Mnemonic.text : Mnemonic → String
  | .lda => "LDA" | .ldx => "LDX" | .ldy => "LDY" | .sta => "STA" | .stx => "STX" | .sty => "STY"
  | .tax => "TAX" | .tay => "TAY" | .tsx => "TSX" | .txa => "TXA" | .txs => "TXS" | .tya => "TYA"
  | .pha => "PHA" | .php => "PHP" | .pla => "PLA" | .plp => "PLP"
  | .and => "AND" | .eor => "EOR" | .ora => "ORA" | .bit => "BIT"
  | .adc => "ADC" | .sbc => "SBC" | .cmp => "CMP" | .cpx => "CPX" | .cpy => "CPY"
  | .inc => "INC" | .inx => "INX" | .iny => "INY" | .dec => "DEC" | .dex => "DEX" | .dey => "DEY"
  | .asl => "ASL" | .lsr => "LSR" | .rol => "ROL" | .ror => "ROR"
  | .jmp => "JMP" | .jsr => "JSR" | .rts => "RTS"
  | .bcc => "BCC" | .bcs => "BCS" | .beq => "BEQ" | .bmi => "BMI"
  | .bne => "BNE" | .bpl => "BPL" | .bvc => "BVC" | .bvs => "BVS"
  | .clc => "CLC" | .cld => "CLD" | .cli => "CLI" | .clv => "CLV"
  | .sec => "SEC" | .sed => "SED" | .sei => "SEI"
  | .brk => "BRK" | .nop => "NOP" | .rti => "RTI"

inductive Mode where
  | implied | accumulator | immediate
  | zeroPage | zeroPageX | zeroPageY
  | absolute | absoluteX | absoluteY
  | indirect | indirectX | indirectY
  | relative
  deriving DecidableEq, Repr

namespace Mode

def text : Mode → String
  | implied => "Implied"
  | accumulator => "Accumulator"
  | immediate => "Immediate"
  | zeroPage => "ZeroPage"
  | zeroPageX => "ZeroPageX"
  | zeroPageY => "ZeroPageY"
  | absolute => "Absolute"
  | absoluteX => "AbsoluteX"
  | absoluteY => "AbsoluteY"
  | indirect => "Indirect"
  | indirectX => "IndirectX"
  | indirectY => "IndirectY"
  | relative => "Relative"

def operandLength : Mode → Nat
  | implied | accumulator => 0
  | absolute | absoluteX | absoluteY | indirect => 2
  | immediate | zeroPage | zeroPageX | zeroPageY | indirectX | indirectY | relative => 1

end Mode

structure Instruction where
  mnemonic : Mnemonic
  mode : Mode
  cycles : UInt32
  -- One more cycle is charged when indexing leaves the base address's page.
  pagePenalty : Bool
  deriving DecidableEq, Repr

end Famicom
