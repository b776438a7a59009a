import PolyTerm.Recipients
import PolyTerm.TrustStatus
import PolyTerm.RemoteForwards
import PolyTerm.StaleInput
import PolyTerm.ForwardSession
import PolyTerm.LiveMap
import PolyTerm.CloseGuard
import PolyTerm.VisibleFocus
import PolyTerm.Pump
import PolyTerm.CrashSafety
import PolyTerm.AtomicSaves
import PolyTerm.LibraryCalls
import PolyTerm.LockedFiles
import PolyTerm.IndexFile
import PolyTerm.ReopenHistory
import PolyTerm.EditFolder
import PolyTerm.InputOrder
import PolyTerm.PromptOrder
import PolyTerm.KeyUnlock
import PolyTerm.PromptGate
import PolyTerm.TerminalSize
import PolyTerm.RetryRule
import PolyTerm.TreeRuns
import PolyTerm.Restore
import PolyTerm.Lifecycle
import PolyTerm.Sends
import PolyTerm.Pastes
import PolyTerm.EventOrder
import PolyTerm.CopyOrInterrupt
import PolyTerm.DropMark
import PolyTerm.Addressing
import PolyTerm.SerialLine
import PolyTerm.BackendContract
import PolyTerm.MouseButtons
import PolyTerm.WideText
import PolyTerm.SocksReplies
import PolyTerm.TrustFile
import PolyTerm.FolderDeletion
import PolyTerm.ResizeStream
import PolyTerm.SessionLog
import PolyTerm.NeighborOrder
import PolyTerm.Redaction
import PolyTerm.LibraryOnDisk
import PolyTerm.LocalShell
import PolyTerm.Settling
import PolyTerm.ShellClosing
import PolyTerm.Dispatch
import PolyTerm.Sftp
import PolyTerm.SftpReplies
import PolyTerm.Canvas
import PolyTerm.Keyring
import PolyTerm.Painting
import PolyTerm.PanelActions
import PolyTerm.Remembered
import PolyTerm.ScreenLooks
import PolyTerm.SerialClosing
import PolyTerm.ModemReadout
import PolyTerm.Backoff
import PolyTerm.BufWriter
import PolyTerm.LogFile
import PolyTerm.Standing
import PolyTerm.KeyApproval
import PolyTerm.SessionClosing
import PolyTerm.TrustOnDisk
