import Iwlwifi.AmsduSkb
import Iwlwifi.AverageDbm
import Iwlwifi.BssHidden
import Iwlwifi.BssRef
import Iwlwifi.DataQueueReclaim
import Iwlwifi.DbgFragments
import Iwlwifi.Emlsr
import Iwlwifi.FilterAvg
import Iwlwifi.Fragment
import Iwlwifi.FragmentRoundtrip
import Iwlwifi.HandleChannel
import Iwlwifi.HcmdGen2
import Iwlwifi.LinkUpdate
import Iwlwifi.LowLatency
import Iwlwifi.MeshRmc
import Iwlwifi.MldReorderOrder
import Iwlwifi.MleSize
import Iwlwifi.MoreData
import Iwlwifi.MpduRun
import Iwlwifi.MultiBssid
import Iwlwifi.NanPeer
import Iwlwifi.NvmMcc
import Iwlwifi.Paging
import Iwlwifi.Pnvm
import Iwlwifi.PsAccount
import Iwlwifi.PtpTime
import Iwlwifi.RegBandwidth
import Iwlwifi.Regdb
import Iwlwifi.ReorderFiltered
import Iwlwifi.ReorderRun
import Iwlwifi.RxFraming
import Iwlwifi.RxReplay
import Iwlwifi.SapRing
import Iwlwifi.StaAggregates
import Iwlwifi.Tim
import Iwlwifi.Tkip
import Iwlwifi.TpePsd
import Iwlwifi.TsoBudget
import Iwlwifi.TtlmLinks
import Iwlwifi.TxAmsdu
import Iwlwifi.TxBaBlocked
