import GrahaOS.TokenLifetime
import GrahaOS.Authority
import GrahaOS.PledgeNarrowing
import GrahaOS.ChannelFifo
import GrahaOS.JournalFaults
import GrahaOS.InodeStaging
import GrahaOS.FileContents
import GrahaOS.VmoIsolation
import GrahaOS.NetdIsolation
import GrahaOS.Reaping
import GrahaOS.BarrierLedger
import GrahaOS.BarrierExclusion
import GrahaOS.StreamProgress
import GrahaOS.FreedSlots
import GrahaOS.FailedSends
import GrahaOS.ChannelCreation
import GrahaOS.HandleSlots
import GrahaOS.Orphans
import GrahaOS.SpinlockExclusion
import GrahaOS.OpenFileCounts
import GrahaOS.RefusedSends
import GrahaOS.TxnScopes
import GrahaOS.MapBounds
import GrahaOS.VmoTransfers
import GrahaOS.TxnBufferBytes
import GrahaOS.CowTrackers
import GrahaOS.IoTokens
import GrahaOS.IrqRing
import GrahaOS.StreamCancellation
import GrahaOS.KernelHeap
import GrahaOS.SocketRuns
import GrahaOS.ArpCache
import GrahaOS.NamedChannels
import GrahaOS.LogRing
import GrahaOS.MmioGrants
