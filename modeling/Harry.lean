import Harry.BaseExec
import Harry.BaseFraming
import Harry.BaseMajority
import Harry.BaseBlind
import Harry.BaseBuffer
import Harry.BaseRadix
import Harry.BaseLinked
import Harry.BaseSearch
import Harry.PriorityQueue
import Harry.PriorityQueueGrowth
import Harry.RfpMessage
import Harry.RfpStream
import Harry.VconnStream
import Harry.CtrlClientRead
import Harry.CheckpointText
import Harry.ControllerState
import Harry.ControllerVote
import Harry.ControllerPacket
import Harry.ControllerStep
import Harry.ControllerQuorum
import Harry.ControllerCompleteness
import Harry.ControllerOrder
import Harry.ControllerCounter
import Harry.ControllerRefinement
import Harry.ControllerHandshake
import Harry.ControllerMajority
import Harry.ControllerIngress
import Harry.ControllerReadmission
import Harry.ControllerRequests
import Harry.ControllerCommonXid
import Harry.ControllerLeader
import Harry.ControllerTables
import Harry.BaseBits
import Harry.BaseHost
import Harry.SisisAddress
import Harry.SisisRoundTrip
import Harry.SiblingState
import Harry.SiblingLsa
import Harry.SiblingLsdb
import Harry.RouteNode
import Harry.AddressParsing
import Harry.VconnFaithful
import Harry.PunterAdmission
import Harry.RouteTransfer
import Harry.SiblingLsdbTree
import Harry.SiblingRouteTable
import Harry.SiblingRouteChange
import Harry.SiblingRouteRun
import Harry.SiblingRouteBest
import Harry.SiblingDatapath
import Harry.SiblingSpf
import Harry.SiblingSpfTree
import Harry.SiblingSpfRun
import Harry.SiblingElection
import Harry.SiblingRestart
import Harry.SiblingCatchUp
import Harry.SiblingStartup
import Harry.SiblingHellos
import Harry.SiblingFlood
import Harry.SiblingNeighbor
import Harry.SiblingMessage
import Harry.CheckpointJson
import Harry.CheckpointScan
import Harry.CheckpointRoom
import Harry.CheckpointParse
import Harry.CheckpointRoundTrip
import Harry.CheckpointReplay
import Harry.CheckpointKeys
import Harry.SiblingIntra
import Harry.SiblingBlind
import Harry.SiblingAges
import Harry.SiblingTwin
import Harry.SiblingLockstep
import Harry.SiblingSend
import Harry.SiblingReplica
import Harry.SiblingFrames
import Harry.SiblingQuiet
import Harry.SiblingConverge
import Harry.SiblingFiled
import Harry.SiblingRequests
import Harry.SiblingAnswers
import Harry.SiblingCopies
import Harry.SiblingReception
import Harry.SiblingRecency
import Harry.SiblingChecksum
import Harry.SiblingProgress
import Harry.SiblingLsreq
import Harry.SiblingSpfRange
import Harry.ThreadMaster
import Harry.ThreadLists
import Harry.ThreadTimer
import Harry.ThreadScheduler
import Harry.SiblingDrElection
import Harry.SiblingReclaim
import Harry.ControllerRedistribute
import Harry.SiblingPrefixes
import Harry.SiblingOriginate
import Harry.SiblingTransit
import Harry.SiblingLsaBuffers
import Harry.SiblingRouting
import Harry.SiblingEgress
import Harry.TablePrefix
import Harry.TableHeap
import Harry.SiblingNexthops
import Harry.SiblingMultipath
import Harry.TableUnlock
import Harry.TableRefines
import Harry.TableSteps
import Harry.TableGet
import Harry.TableWalk
import Harry.TableRuns
import Harry.SiblingExchange
import Harry.SiblingLoading
import Harry.SiblingCalculation
import Harry.VconnDelivery
import Harry.SisisDiscovery
import Harry.DbList
import Harry.HandshakeAgreement
import Harry.RouteQuorum
import Harry.ZebraliteRoutes
import Harry.NetlinkRoutes
