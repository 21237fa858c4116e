import GrapeDag.Commons.BigInt256
import GrapeDag.State.SlotJournal
import GrapeDag.Vm.Bisection
import GrapeDag.Vm.Checkpoints
import GrapeDag.Vm.CreateResults
import GrapeDag.Vm.DelegateContext
import GrapeDag.Vm.DeployedCode
import GrapeDag.Vm.Dispatch
import GrapeDag.Vm.Exponentiation
import GrapeDag.Vm.FrameMemory
import GrapeDag.Vm.Jumps
import GrapeDag.Vm.ModExp
import GrapeDag.Vm.PushedWords
import GrapeDag.Vm.Refunds
import GrapeDag.Vm.Rejection
import GrapeDag.Vm.ReportedAddress
import GrapeDag.Vm.Supply
import GrapeDag.Dag.AddPayment
import GrapeDag.Dag.Delivery
import GrapeDag.Dag.ExactlyOnce
import GrapeDag.Dag.GapRecovery
import GrapeDag.Dag.Panics
import GrapeDag.Dag.RandomWalk
import GrapeDag.Dag.Reproduced
import GrapeDag.Dag.Search
import GrapeDag.Dag.Selection
import GrapeDag.Dag.SiteExchange
import GrapeDag.Dag.SyncStates
import GrapeDag.Dag.SyncUp
import GrapeDag.Dag.TipSelection
import GrapeDag.Dag.TxCodecs
