import YModem.Lib.Run
import YModem.Lib.Log
import YModem.Lib.Bytes
import YModem.Lib.Decimal
import YModem.Lib.Script
import YModem.Lib.Crc
import YModem.Lib.CrcPoly
import YModem.Lib.CondVar
import YModem.Lib.Ring
import YModem.Lib.Fifo
import YModem.Lib.Statechart
import YModem.SmartState.Chart
import YModem.SmartState.Tagged
import YModem.SmartState.Refinement
import YModem.Peer.Crc
import YModem.Peer.Base
import YModem.Peer.Block
import YModem.Peer.TransferCommon
import YModem.Peer.Timeout
import YModem.Peer.Damage
import YModem.Peer.Remainder
import YModem.Peer.Arrows
import YModem.Receiver.Context
import YModem.Receiver.Chart
import YModem.Receiver.Transitions
import YModem.Receiver.Classify
import YModem.Receiver.Runtime
import YModem.Receiver.RunToCompletion
import YModem.Receiver.Accept
import YModem.Receiver.Can
import YModem.Receiver.Output
import YModem.Receiver.Store
import YModem.Receiver.Truncation
import YModem.Receiver.Retransmit
import YModem.Receiver.GivesUp
import YModem.Receiver.ErrCnt
import YModem.Receiver.KbCancel
import YModem.Receiver.StatText
import YModem.Receiver.Purge
import YModem.Receiver.Ends
import YModem.Receiver.Drawn
import YModem.Sender.Context
import YModem.Sender.Blocks
import YModem.Sender.Chart
import YModem.Sender.Transitions
import YModem.Sender.Runtime
import YModem.Sender.Script
import YModem.Sender.Trace
import YModem.Sender.Retries
import YModem.Sender.KbCancel
import YModem.Sender.Can
import YModem.Sender.Ends
import YModem.Session.Noise
import YModem.Session.Copy
import YModem.Session.RoundTrip
import YModem.Session.StopAndWait
import YModem.Session.Sending
import YModem.Session.CreatedFiles
import YModem.Session.Receiving
import YModem.Session.ReceivingBlks
import YModem.Session.Exchange
import YModem.Session.SenderInStep
import YModem.Session.ReceiverInStep
import YModem.Session.Completion
import YModem.Session.Descriptors
import YModem.Session.StatBlk
import YModem.Session.EventLoop
import YModem.Session.ResultLog
import YModem.MyIO.SocketInfo
import YModem.MyIO.Steps
import YModem.MyIO.Counters
import YModem.MyIO.Delivery
import YModem.MyIO.Drain
import YModem.MyIO.Blocking
import YModem.MyIO.Readers
import YModem.MyIO.DesInfoMap
import YModem.MyIO.Pairing
import YModem.MyIO.SocketReadcond
import YModem.MyIO.CircBuf
import YModem.MyIO.CircBufShared
import YModem.MyIO.CircInfo
import YModem.Part1.Sender
import YModem.Part1.Wire
import YModem.Part2.Receiver
import YModem.Part2.Written
import YModem.Part2.Sequencing
import YModem.Part2.Sender
import YModem.Part2.StopAndWait
import YModem.Part2.Medium
import YModem.Part2.Stream
import YModem.Part2.Sending
import YModem.Part2.Receiving
import YModem.Part2.Exchange
import YModem.Part2.Stages
import YModem.Part2.Completion
import YModem.Part6.Medium
import YModem.Part6.Thresholds
import YModem.Part6.Distortion
import YModem.UartAxi.Driver
import YModem.UartAxi.Stall
import YModem.UartAxi.Device
import YModem.UartAxi.Reading
import YModem.UartAxi.Writing
import YModem.UartAxi.Transmit
import YModem.Sender.Drawn
