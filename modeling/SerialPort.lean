import SerialPort.Main
import SerialPort.Port.Waiting
import SerialPort.Proofs.RingQueue
import SerialPort.Proofs.Draining
import SerialPort.Proofs.Reception
import SerialPort.Ring.Run
import SerialPort.Proofs.BoardPorts
import SerialPort.Proofs.Queueing
import SerialPort.Proofs.Disabled
import SerialPort.Proofs.FreeRunning
import SerialPort.Proofs.Written
import SerialPort.Proofs.Alike
import SerialPort.Proofs.InStep
import SerialPort.Proofs.Session
import SerialPort.Proofs.Capacity
import SerialPort.Proofs.Reprogramming
import SerialPort.Proofs.Independence
import SerialPort.Proofs.Refusals
import SerialPort.Proofs.Accuracy
import SerialPort.Proofs.Quiescence
import SerialPort.Proofs.Supply
import SerialPort.Proofs.OwnPort
import SerialPort.Proofs.Directory
import SerialPort.Proofs.EventSnapshot
import SerialPort.Proofs.Transmitter
import SerialPort.Proofs.Streams
import SerialPort.Proofs.EchoRounds
