import Famicom.Main
import Famicom.Picture.Exchange
import Famicom.Proofs.Cpu.Accesses
import Famicom.Proofs.Cpu.Discipline
import Famicom.Proofs.Cpu.StackContents
import Famicom.Proofs.Picture.Drawing
import Famicom.Proofs.Cpu.Nesting
import Famicom.Proofs.Cartridge.SerialHistory
import Famicom.Proofs.Cartridge.Format
import Famicom.Proofs.Console.Frames
import Famicom.Proofs.Console.Halting
import Famicom.Proofs.Cpu.Cycles
import Famicom.Proofs.Cpu.Operations
import Famicom.Proofs.Cpu.StatusHistory
import Famicom.Proofs.Cpu.Alongside
import Famicom.Proofs.Console.Accounting
import Famicom.Proofs.Picture.Redrawing
import Famicom.Proofs.Console.PowerCycle
import Famicom.Proofs.Console.Storage
import Famicom.Proofs.Console.Counting
import Famicom.Proofs.Picture.Ranges
import Famicom.Proofs.Console.Soundness
import Famicom.Proofs.Console.FlatBus
import Famicom.Proofs.Console.ReportCycle
import Famicom.Proofs.Picture.Latch
import Famicom.Proofs.CommandLine.Program
import Famicom.Proofs.Cpu.ProgramCounter
import Famicom.Proofs.Cpu.LongArithmetic
import Famicom.Proofs.Console.Peeking
import Famicom.Proofs.Picture.VideoMemory
import Famicom.Proofs.Cpu.DecimalFlag
import Famicom.Proofs.Cpu.LongShifts
import Famicom.Proofs.Picture.DataStream
import Famicom.Proofs.Console.SpriteTransfer
import Famicom.Proofs.Picture.Fetches
import Famicom.Proofs.Picture.SpriteEvaluation
import Famicom.Proofs.Picture.SpriteZero
import Famicom.Proofs.Cartridge.SmallBoards
import Famicom.Proofs.Picture.Scrolling
import Famicom.Proofs.Picture.Independence
import Famicom.Proofs.Console.Logbook
import Famicom.Proofs.Console.Warnings
import Famicom.Proofs.Picture.Views
import Famicom.Proofs.CommandLine.NextLine
import Famicom.Proofs.Picture.FetchRegions
