import MipsEmulator.Word
import MipsEmulator.State
import MipsEmulator.Execute
import MipsEmulator.Handlers
import MipsEmulator.Syscall
import MipsEmulator.Step
import MipsEmulator.Path
import MipsEmulator.Spec
import MipsEmulator.Frame
import MipsEmulator.Run
import MipsEmulator.Heap
import MipsEmulator.Decode
import MipsEmulator.MemoryProof
import MipsEmulator.Oracle
import MipsEmulator.Control
import MipsEmulator.Replay
import MipsEmulator.Engine
import MipsEmulator.Panics
import MipsEmulator.Gadgets
import MipsEmulator.HiLo
import MipsEmulator.Alu
import MipsEmulator.Lanes
import MipsEmulator.Preimage
import MipsEmulator.Overflow
import MipsEmulator.ByteView
import MipsEmulator.Expression
import MipsEmulator.PreimageStream
