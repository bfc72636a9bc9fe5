import Woterm.Ipc.CallBuffer
import Woterm.Ipc.Fragments
import Woterm.Ipc.Hostile
import Woterm.Ipc.LocalSocket
import Woterm.Ipc.ReadLoop
import Woterm.Ipc.WindowSize
import Woterm.SshConf.Defaults
import Woterm.SshConf.Dialog
import Woterm.SshConf.ImportAll
import Woterm.SshConf.ImportKeys
import Woterm.SshConf.Independent
import Woterm.SshConf.KeygenPipe
import Woterm.SshConf.Keywords
import Woterm.SshConf.Memo
import Woterm.SshConf.Merge
import Woterm.SshConf.Reload
import Woterm.SshConf.Reopen
import Woterm.SshConf.TwoInstances
import Woterm.Ssh.Authfile
import Woterm.Ssh.ConfigReader
import Woterm.Ssh.Connection
import Woterm.Ssh.IdentityPath
import Woterm.Ssh.Keyfile
import Woterm.Script.Collecting
import Woterm.Script.ExitCode
import Woterm.Script.Selector
import Woterm.Script.ShellCommand
import Woterm.Rc4State
import Woterm.Zmodem
import Woterm.Zmodem.Crc
import Woterm.Zmodem.Data
import Woterm.Zmodem.Header
import Woterm.Zmodem.Line
import Woterm.Zmodem.Receiver
import Woterm.Zmodem.Sender
import Woterm.Zmodem.Transfer
import Woterm.Terminal.ArraySafety
import Woterm.Terminal.Grid
import Woterm.Terminal.PlainText
import Woterm.Terminal.Malformed
import Woterm.Terminal.Decoration
import Woterm.Terminal.Overstrike
import Woterm.Terminal.Session
import Woterm.Terminal.Scrolling
import Woterm.Terminal.Erasing
import Woterm.Terminal.Motion
import Woterm.Terminal.PendingWrap
import Woterm.Terminal.Tabs
import Woterm.Terminal.Titles
import Woterm.Terminal.TitleOrigin
import Woterm.History.UseOrder
import Woterm.History.Form
import Woterm.Konsole.Emulation
import Woterm.Konsole.Sequences
import Woterm.Konsole.Regions
import Woterm.Konsole.Replies
