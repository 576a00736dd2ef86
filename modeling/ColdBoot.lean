import ColdBoot.Flags
import ColdBoot.BitField
import ColdBoot.PhysAddr
import ColdBoot.Cpu.Status
import ColdBoot.Cpu.Cause
import ColdBoot.Cpu.CacheLines
import ColdBoot.Video.Framebuffer
import ColdBoot.Video.Painting
import ColdBoot.Video.ClearPlan
import ColdBoot.Program.Run
import ColdBoot.Fence
import ColdBoot.Log
import ColdBoot.Log.Host
import ColdBoot.Dma.Sp
import ColdBoot.Dma.Pi
import ColdBoot.Interrupt.Arming
import ColdBoot.Interrupt.Dispatch
import ColdBoot.Interrupt.Jump
import ColdBoot.Interrupt.ExceptionFrame
import ColdBoot.Handoff
import ColdBoot.Beacon
import ColdBoot.Square
import ColdBoot.LinkScript
import ColdBoot.Bench.Trace
import ColdBoot.Bench.Rdram
import ColdBoot.Bench.Picture
import ColdBoot.Bench.Session
import ColdBoot.Proofs.Hardware
import ColdBoot.Proofs.Determined
import ColdBoot.Proofs.Footprint
import ColdBoot.Proofs.VideoSession
import ColdBoot.Proofs.TransferQueue
import ColdBoot.Proofs.QueueRoom
import ColdBoot.Proofs.RowPacking
import ColdBoot.Proofs.CacheWalk
import ColdBoot.Proofs.CacheWalkEnds
import ColdBoot.Proofs.FrameBytes
import ColdBoot.Proofs.TransferEngine
import ColdBoot.Proofs.MemoryPath
import ColdBoot.Proofs.Board
import ColdBoot.Proofs.IdleBoard
import ColdBoot.Proofs.ClearTiling
import ColdBoot.Proofs.PatternTransfer
import ColdBoot.Proofs.FrameOperations
import ColdBoot.Proofs.FrameSession
import ColdBoot.Proofs.Finishing
import ColdBoot.Proofs.LiveBoard
import ColdBoot.Proofs.ClearFill
import ColdBoot.Proofs.FrameCoherence
import ColdBoot.Proofs.DoubleBuffer
import ColdBoot.Proofs.Pacing
import ColdBoot.Proofs.Timeline
import ColdBoot.Proofs.Emission
import ColdBoot.Proofs.FirstPicture
import ColdBoot.Proofs.FrameCycle
import ColdBoot.Proofs.RenderLoop
import ColdBoot.Proofs.BootSequence
import ColdBoot.Proofs.StaleFlag
import ColdBoot.Proofs.BootOrder
import ColdBoot.Proofs.FrameLoop
import ColdBoot.Proofs.ConsoleLife
import ColdBoot.Proofs.Chassis
import ColdBoot.Proofs.PromptBoard
import ColdBoot.Proofs.VblankService
import ColdBoot.Proofs.DispatchDecision
import ColdBoot.Proofs.VblankTiming
import ColdBoot.Proofs.Silence
import ColdBoot.Proofs.BeaconTruth
import ColdBoot.Proofs.LogWindow
import ColdBoot.Proofs.StartCommand
import ColdBoot.Proofs.WordTapes
import ColdBoot.Proofs.FirstTerminal
import ColdBoot.Proofs.FaultFree
import ColdBoot.Proofs.QueuedClear
import ColdBoot.Proofs.ChunkRequests
import ColdBoot.Proofs.Rectangle
import ColdBoot.Proofs.ClippedRectangle
import ColdBoot.Proofs.StoredDrawings
import ColdBoot.Proofs.SquarePath
import ColdBoot.Proofs.Remarks
import ColdBoot.Proofs.PureObservers
import ColdBoot.Proofs.RowFormat
import ColdBoot.Proofs.RowRequests
import ColdBoot.Proofs.ScaledPicture
import ColdBoot.Proofs.LineHistory
import ColdBoot.Proofs.InstructionPath
import ColdBoot.Proofs.VectorJump
