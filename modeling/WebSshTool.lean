import WebSshTool.Lib.Machine
import WebSshTool.Lib.Mutex
import WebSshTool.Lib.Json
import WebSshTool.Lib.JsonRoundTrip
import WebSshTool.Lib.Files
import WebSshTool.Lib.Utf8
import WebSshTool.Lib.Paths
import WebSshTool.Lib.Urlencoded
import WebSshTool.SignIn.Tokens
import WebSshTool.SignIn.Deadlock
import WebSshTool.SignIn.Queue
import WebSshTool.SignIn.Exclusion
import WebSshTool.SignIn.Leaks
import WebSshTool.SignIn.Registry
import WebSshTool.Watch.Watcher
import WebSshTool.Watch.Deadlock
import WebSshTool.Watch.Close
import WebSshTool.Upload.Client
import WebSshTool.Upload.Handler
import WebSshTool.Upload.RoundTrip
import WebSshTool.Upload.Agreement
import WebSshTool.Upload.Leftovers
import WebSshTool.Upload.DropZone
import WebSshTool.Session.Request
import WebSshTool.Session.Shells
import WebSshTool.Session.ShellMap
import WebSshTool.Session.InputOrder
import WebSshTool.Session.Events
import WebSshTool.Session.Stall
import WebSshTool.Session.Blocked
import WebSshTool.Terminal.Output
import WebSshTool.Http.StaticFiles
import WebSshTool.Rpc.ClientWebsocket
import WebSshTool.Rpc.Correlation
import WebSshTool.Rpc.Transfers
import WebSshTool.Rpc.TransferSteps
import WebSshTool.Rpc.Rendezvous
import WebSshTool.Cleanup.Session
import WebSshTool.Cleanup.Calls
import WebSshTool.Cleanup.Quiescence
import WebSshTool.Dispatch.Messages
import WebSshTool.Dispatch.Order
import WebSshTool.FsApi.Clobber
import WebSshTool.FsApi.Alone
import WebSshTool.FsApi.CopySteps
import WebSshTool.FsApi.CopyTree
import WebSshTool.Download.Complete
import WebSshTool.Download.Bundle
import WebSshTool.Download.Skipped
import WebSshTool.Download.Relay
import WebSshTool.Download.Length
import WebSshTool.Download.Disposition
import WebSshTool.Http.Query
import WebSshTool.Http.Assets
import WebSshTool.Workers.Fallback
import WebSshTool.Logging.Starvation
import WebSshTool.Watch.Listing
import WebSshTool.Explorer.Chronology
import WebSshTool.Logging.LogFile
import WebSshTool.Scaffold.Order
import WebSshTool.Rpc.Delivery
import WebSshTool.Rpc.Promises
import WebSshTool.Rpc.Wire
import WebSshTool.Workers.InOrder
import WebSshTool.Lib.Unwinding
import WebSshTool.Rpc.Isolation
import WebSshTool.Connection.Supervised
import WebSshTool.Settings.Remember
import WebSshTool.Http.Site
import WebSshTool.Screen.Faithful
import WebSshTool.Keyboard.Faithful
import WebSshTool.Watch.Navigation
import WebSshTool.Explorer.Shown
