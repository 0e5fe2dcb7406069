import Evm2.State.Summary
import Evm2.Interpreter.Dispatch
import Evm2.Interpreter.FrameTree
import Evm2.Interpreter.Memory
import Evm2.Interpreter.StoreTree
import Evm2.Evm.Outcomes
import Evm2.Evm.Skips
import Evm2.Block.Effect
import Evm2.Block.Sizes
import Evm2.Block.Streamed
import Evm2.Bal.Alloy
import Evm2.Bal.Commit
import Evm2.Bal.Replay
import Evm2.Ethereum.Outcomes
import Evm2.Precompiles.ModexpEip
import Evm2.Jit.DecodeAgrees
import Evm2.Jit.FoldSound
import Evm2.Jit.GasAgree
import Evm2.Jit.MemSound
import Evm2.Jit.MemoryRuns
import Evm2.Jit.StackChecks
import Evm2.Inspectors.StateDiff
