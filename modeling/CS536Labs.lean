import CS536Labs.Foundations.Transition
import CS536Labs.Foundations.Word
import CS536Labs.Foundations.Access
import CS536Labs.Foundations.RingBuffer
import CS536Labs.Foundations.Fifo
import CS536Labs.Lab1.Quoting
import CS536Labs.Lab5.QueueFifo
import CS536Labs.Lab5.InterruptedWriteSafety
import CS536Labs.Lab5.InterruptedLoad
import CS536Labs.Lab5.Drain
import CS536Labs.Lab4.AccessControl
import CS536Labs.Foundations.Segments
import CS536Labs.Lab4.RoadrunnerServer
import CS536Labs.Lab4.ServerWindows
import CS536Labs.Lab4.RoadrunnerClient
import CS536Labs.Lab4.Encryption
import CS536Labs.Lab4.Roadrunner
import CS536Labs.Lab4.ReceivedWindow
import CS536Labs.Lab4.WindowAgreement
import CS536Labs.Lab4.EndOfFile
import CS536Labs.Lab4.AcknowledgeableWindow
import CS536Labs.Lab4.FailedWindow
import CS536Labs.Lab4.WrittenOnce
import CS536Labs.Lab4.ResentRequest
import CS536Labs.Lab4.Lossless
import CS536Labs.Foundations.Buffer
import CS536Labs.Foundations.Ipv4
import CS536Labs.Lab3.RequestCodec
import CS536Labs.Lab3.FileServer
import CS536Labs.Lab5.RequestCodec
import CS536Labs.Lab4.StaleRequest
import CS536Labs.Lab6.ZzconfigCodec
import CS536Labs.Foundations.Udp
import CS536Labs.Lab6.SocketUtils
import CS536Labs.Lab6.Zigzagrouter
import CS536Labs.Lab6.Reconfiguration
import CS536Labs.Lab6.SelectLoop
import CS536Labs.Lab6.ReturnPath
import CS536Labs.Lab6.Overlay
import CS536Labs.Lab6.OverlayRounds
import CS536Labs.Lab6.ReadOverlay
import CS536Labs.Lab6.Zigzagconf
import CS536Labs.Foundations.Pipe
import CS536Labs.Foundations.Tokens
import CS536Labs.Lab1.CommandServer
import CS536Labs.Lab1.RequestServer
import CS536Labs.Lab1.TearDown
import CS536Labs.Lab2.Rcommandserver
import CS536Labs.Lab2.ServerRuns
import CS536Labs.Lab3.FileTransfer
import CS536Labs.Lab4.ReceiverBounds
import CS536Labs.Lab2.CommandBounds
import CS536Labs.Lab1.ServerBounds
import CS536Labs.Lab6.SatisfiableUpdate
import CS536Labs.Foundations.ClampedAffine
import CS536Labs.Lab5.CongestionControls
import CS536Labs.Lab4.LoadPublicKeys
import CS536Labs.Lab5.Pspacing
import CS536Labs.Lab6.OverlayFile
import CS536Labs.Lab6.OverlayBounds
import CS536Labs.Lab6.WholeDatagrams
import CS536Labs.Foundations.Integers
import CS536Labs.Lab2.ReadConfig
import CS536Labs.Lab2.Mypingcli
import CS536Labs.Lab2.PingReplies
import CS536Labs.Foundations.LongDouble
import CS536Labs.Lab5.GetConfig
import CS536Labs.Lab2.Mypingsrv
import CS536Labs.Lab2.PingSystem
import CS536Labs.Lab5.AudioServer
import CS536Labs.Lab5.AudioStreaming
import CS536Labs.Lab5.StreamingSafety
import CS536Labs.Lab5.Playback
import CS536Labs.Lab4.Recovery
import CS536Labs.Lab6.ControlRound
import CS536Labs.Lab6.Deployment
import CS536Labs.Lab2.Rcommandclient
import CS536Labs.Lab2.RemoteCommand
import CS536Labs.Lab2.CommandSession
import CS536Labs.Lab2.ServedConnections
import CS536Labs.Lab2.AtMostOnce
import CS536Labs.Lab2.ExactlyOnce
import CS536Labs.Lab1.CommandShell
import CS536Labs.Lab1.ShellSessions
import CS536Labs.Lab1.ShellTermination
import CS536Labs.Lab3.FileService
import CS536Labs.Lab3.ServiceSessions
import CS536Labs.Lab3.WholeTransfers
