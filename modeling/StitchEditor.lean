import StitchEditor.Lib.Cursor
import StitchEditor.Lib.Table
import StitchEditor.Contracts.Commitment
import StitchEditor.Contracts.Commute
import StitchEditor.Contracts.Exactness
import StitchEditor.History
import StitchEditor.Store.Publication
import StitchEditor.Store.Recovery
import StitchEditor.Store.Transparency
import StitchEditor.Abi.Cancellation
import StitchEditor.Abi.Drain
import StitchEditor.Abi.Lifecycle
import StitchEditor.Abi.Reentrancy
import StitchEditor.Paths
import StitchEditor.Desktop.Retirement
import StitchEditor.Contracts.Sequence
import StitchEditor.Contracts.Trace
import StitchEditor.Abi.Commands
import StitchEditor.Desktop.Bridge
import StitchEditor.Desktop.Editing
import StitchEditor.Store.Calls
import StitchEditor.Store.Opening
