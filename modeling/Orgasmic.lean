import Orgasmic.TxCausality
import Orgasmic.RequestIds
import Orgasmic.AppendOnce
import Orgasmic.ExactlyOnce
import Orgasmic.Reclaimed
import Orgasmic.ClaimRegister
import Orgasmic.ManagerWatch
import Orgasmic.QuotaHeld
import Orgasmic.InputOnce
import Orgasmic.InvalidationsKept
import Orgasmic.TombstonesKept
import Orgasmic.TxCoverage
import Orgasmic.TxLineage
import Orgasmic.PeerOutput
import Orgasmic.PublicationsHonest
import Orgasmic.RefreshHonest
import Orgasmic.ProjectionFresh
import Orgasmic.WorkerLeases
import Orgasmic.RepairResumed
import Orgasmic.TranscriptFilter
import Orgasmic.FileMutations
import Orgasmic.OrgBodyLines
import Orgasmic.OrgRemoval
import Orgasmic.IdRepair
import Orgasmic.HistoryAgreement
import Orgasmic.EventTwice
import Orgasmic.OperatorMessage
import Orgasmic.TranscriptTail
import Orgasmic.DecisionTree
import Orgasmic.BootRecord
import Orgasmic.UploadIntegrity
import Orgasmic.JournalKept
import Orgasmic.ViewsKept
import Orgasmic.NodeRegistry
import Orgasmic.LogRotation
import Orgasmic.RpcErrorData
import Orgasmic.PromptOpaque
import Orgasmic.JournalLog
import Orgasmic.AccessRuns
