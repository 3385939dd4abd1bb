import Zyndra.Runs
import Zyndra.CyclicRing
import Zyndra.FifoSync
import Zyndra.AxiMasterRd
import Zyndra.ReadBench
import Zyndra.ReadAddress
import Zyndra.ReadStream
import Zyndra.ReadPublish
import Zyndra.AxiMasterWr
import Zyndra.WriteBench
import Zyndra.WriteStream
import Zyndra.WriteAddress
import Zyndra.Driver
import Zyndra.RxBench
import Zyndra.RxBooks
import Zyndra.RxLoss
import Zyndra.RxIntact
import Zyndra.RxEnable
import Zyndra.TxFlow
import Zyndra.TxFlush
import Zyndra.CacheRanges
import Zyndra.FailedCalls
import Zyndra.SessionStart
import Zyndra.Lfsr
import Zyndra.PrbsHost
import Zyndra.PrbsChecker
import Zyndra.CyclicTable
import Zyndra.PrbsTable
import Zyndra.DiagPrbs
import Zyndra.Ad936xTxrx
import Zyndra.TxrxLoop
import Zyndra.Ad936xAxi
import Zyndra.TxWords
import Zyndra.RxSamples
import Zyndra.Batches
import Zyndra.UdpChunks
import Zyndra.AxiLite
import Zyndra.LiteWrites
import Zyndra.LiteReads
import Zyndra.WriteReset
import Zyndra.ReadReset
import Zyndra.Peripheral
import Zyndra.SoftReset
import Zyndra.TcpRegs
import Zyndra.TcpStream
import Zyndra.LastWrite
import Zyndra.LinkToClient
import Zyndra.Ad936xEmu
import Zyndra.RegisterFiles
import Zyndra.EmulatedRing
import Zyndra.WindDown
import Zyndra.DisableStop
import Zyndra.EnablePulse
import Zyndra.EnableRestart
import Zyndra.WholeSteps
import Zyndra.TxDepth
import Zyndra.ByteCount
import Zyndra.StatsShow
import Zyndra.SlotRing
import Zyndra.Transfers
import Zyndra.Ad9361Rx
import Zyndra.Ad9361RxTcp
import Zyndra.Ad9361RxStatus
import Zyndra.Ad9361RxUdp
import Zyndra.PostedWrites
import Zyndra.WriteMemory
import Zyndra.RxMemory
import Zyndra.ReadMemory
import Zyndra.TxMemory
import Zyndra.CachedRing
import Zyndra.TxSession
import Zyndra.ReceiveSession
import Zyndra.ClientToLink
import Zyndra.Circulation
import Zyndra.PrbsPipes
