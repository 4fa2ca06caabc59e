import Evsip.Lib.Run
import Evsip.Register.Lifetime
import Evsip.Register.Answer
import Evsip.Register.Safety
import Evsip.Register.Refinement
import Evsip.Register.Ownership
import Evsip.Endp.Client
import Evsip.Cmdlst.Session
import Evsip.Cmdlst.History
import Evsip.Cmdlst.Faithful
import Evsip.Cmdlst.Roster
import Evsip.Cli.Bounds
import Evsip.Cli.ListEditor
import Evsip.Cli.Dispatch
import Evsip.Config.Terminated
import Evsip.Config.Reach
import Evsip.Config.Separator
import Evsip.Config.Malformed
import Evsip.Config.Dump
import Evsip.Config.LastSetting
import Evsip.Config.Chunks
import Evsip.Mem.Exact
import Evsip.Mem.Reentrant
import Evsip.Lib.Silent
import Evsip.Cli.FailedReads
import Evsip.Mem.Limits
import Evsip.Register.Expiry
import Evsip.Register.Strings
import Evsip.Lib.Project
import Evsip.Register.Listing
import Evsip.Core.Commands
import Evsip.Core.Startup
import Evsip.Core.Server
import Evsip.Core.Effect
import Evsip.Core.Loop
import Evsip.Core.Refinement
import Evsip.Core.Uri
import Evsip.Core.Main
import Evsip.Config.Compose
import Evsip.Register.Nameless
import Evsip.Cli.Preview
import Evsip.Cmdlst.Stale
import Evsip.Core.Typing
import Evsip.Register.Board
import Evsip.Mem.Collect
import Evsip.Config.Reparse
import Evsip.Core.Ending
import Evsip.Core.Shutdown
