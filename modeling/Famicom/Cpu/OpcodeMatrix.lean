import Famicom.Cpu.Instruction

namespace Famicom

private def op (mnemonic : Mnemonic) (mode : Mode) (cycles : UInt32) : Option Instruction :=
  some ⟨mnemonic,mode,cycles,false⟩

private def paged (mnemonic : Mnemonic) (mode : Mode) (cycles : UInt32) : Option Instruction :=
  some ⟨mnemonic,mode,cycles,true⟩

-- The high digit of an opcode picks the row and the low digit the column.
def opcodeMatrix : Vector (Vector (Option Instruction) 16) 16 := #v[
  #v[op .brk .implied 7, op .ora .indirectX 6, none, none, none, op .ora .zeroPage 3, op .asl .zeroPage 5,
    none, op .php .implied 3, op .ora .immediate 2, op .asl .accumulator 2, none, none, op .ora .absolute 4,
    op .asl .absolute 6, none],
  #v[op .bpl .relative 2, paged .ora .indirectY 5, none, none, none, op .ora .zeroPageX 4,
    op .asl .zeroPageX 6, none, op .clc .implied 2, paged .ora .absoluteY 4, none, none, none,
    paged .ora .absoluteX 4, op .asl .absoluteX 7, none],
  #v[op .jsr .absolute 6, op .and .indirectX 6, none, none, op .bit .zeroPage 3, op .and .zeroPage 3,
    op .rol .zeroPage 5, none, op .plp .implied 4, op .and .immediate 2, op .rol .accumulator 2, none,
    op .bit .absolute 4, op .and .absolute 4, op .rol .absolute 6, none],
  #v[op .bmi .relative 2, paged .and .indirectY 5, none, none, none, op .and .zeroPageX 4,
    op .rol .zeroPageX 6, none, op .sec .implied 2, paged .and .absoluteY 4, none, none, none,
    paged .and .absoluteX 4, op .rol .absoluteX 7, none],
  #v[op .rti .implied 6, op .eor .indirectX 6, none, none, none, op .eor .zeroPage 3, op .lsr .zeroPage 5,
    none, op .pha .implied 3, op .eor .immediate 2, op .lsr .accumulator 2, none, op .jmp .absolute 3,
    op .eor .absolute 4, op .lsr .absolute 6, none],
  #v[op .bvc .relative 2, paged .eor .indirectY 5, none, none, none, op .eor .zeroPageX 4,
    op .lsr .zeroPageX 6, none, op .cli .implied 2, paged .eor .absoluteY 4, none, none, none,
    paged .eor .absoluteX 4, op .lsr .absoluteX 7, none],
  #v[op .rts .implied 6, op .adc .indirectX 6, none, none, none, op .adc .zeroPage 3, op .ror .zeroPage 5,
    none, op .pla .implied 4, op .adc .immediate 2, op .ror .accumulator 2, none, op .jmp .indirect 5,
    op .adc .absolute 4, op .ror .absolute 6, none],
  #v[op .bvs .relative 2, paged .adc .indirectY 5, none, none, none, op .adc .zeroPageX 4,
    op .ror .zeroPageX 6, none, op .sei .implied 2, paged .adc .absoluteY 4, none, none, none,
    paged .adc .absoluteX 4, op .ror .absoluteX 7, none],
  #v[none, op .sta .indirectX 6, none, none, op .sty .zeroPage 3, op .sta .zeroPage 3, op .stx .zeroPage 3,
    none, op .dey .implied 2, none, op .txa .implied 2, none, op .sty .absolute 4, op .sta .absolute 4,
    op .stx .absolute 4, none],
  #v[op .bcc .relative 2, op .sta .indirectY 6, none, none, op .sty .zeroPageX 4, op .sta .zeroPageX 4,
    op .stx .zeroPageY 4, none, op .tya .implied 2, op .sta .absoluteY 5, op .txs .implied 2, none, none,
    op .sta .absoluteX 5, none, none],
  #v[op .ldy .immediate 2, op .lda .indirectX 6, op .ldx .immediate 2, none, op .ldy .zeroPage 3,
    op .lda .zeroPage 3, op .ldx .zeroPage 3, none, op .tay .implied 2, op .lda .immediate 2,
    op .tax .implied 2, none, op .ldy .absolute 4, op .lda .absolute 4, op .ldx .absolute 4, none],
  #v[op .bcs .relative 2, paged .lda .indirectY 5, none, none, op .ldy .zeroPageX 4, op .lda .zeroPageX 4,
    op .ldx .zeroPageY 4, none, op .clv .implied 2, paged .lda .absoluteY 4, op .tsx .implied 2, none,
    paged .ldy .absoluteX 4, paged .lda .absoluteX 4, paged .ldx .absoluteY 4, none],
  #v[op .cpy .immediate 2, op .cmp .indirectX 6, none, none, op .cpy .zeroPage 3, op .cmp .zeroPage 3,
    op .dec .zeroPage 5, none, op .iny .implied 2, op .cmp .immediate 2, op .dex .implied 2, none,
    op .cpy .absolute 4, op .cmp .absolute 4, op .dec .absolute 6, none],
  #v[op .bne .relative 2, paged .cmp .indirectY 5, none, none, none, op .cmp .zeroPageX 4,
    op .dec .zeroPageX 6, none, op .cld .implied 2, paged .cmp .absoluteY 4, none, none, none,
    paged .cmp .absoluteX 4, op .dec .absoluteX 7, none],
  #v[op .cpx .immediate 2, op .sbc .indirectX 6, none, none, op .cpx .zeroPage 3, op .sbc .zeroPage 3,
    op .inc .zeroPage 5, none, op .inx .implied 2, op .sbc .immediate 2, op .nop .implied 2, none,
    op .cpx .absolute 4, op .sbc .absolute 4, op .inc .absolute 6, none],
  #v[op .beq .relative 2, paged .sbc .indirectY 5, none, none, none, op .sbc .zeroPageX 4,
    op .inc .zeroPageX 6, none, op .sed .implied 2, paged .sbc .absoluteY 4, none, none, none,
    paged .sbc .absoluteX 4, op .inc .absoluteX 7, none]]

def decode (opcode : UInt8) : Option Instruction :=
  have := opcode.toNat_lt
  opcodeMatrix[opcode.toNat / 16][opcode.toNat % 16]

end Famicom
