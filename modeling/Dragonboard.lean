import Dragonboard.Probe
import Dragonboard.Map
import Dragonboard.MapTable
import Dragonboard.MapRun
import Dragonboard.MapApi
import Dragonboard.MapLawful
import Dragonboard.MapGrowth
import Dragonboard.Memory
import Dragonboard.Qmi
import Dragonboard.QmiLayout
import Dragonboard.QmiBounds
import Dragonboard.QmiExtent
import Dragonboard.QmiSpan
import Dragonboard.QmiWire
import Dragonboard.QmiEncode
import Dragonboard.QmiRoundTrip
import Dragonboard.QmiTables
import Dragonboard.QmiFields
import Dragonboard.QmiConfined
import Dragonboard.QmiLocal
import Dragonboard.QmiOrder
import Dragonboard.QmiComplete
import Dragonboard.QmiCounts
import Dragonboard.Storage
import Dragonboard.Rmtfs
import Dragonboard.RmtfsHandles
import Dragonboard.RmtfsCallerIds
import Dragonboard.ShadowFile
import Dragonboard.RmtfsCommands
import Dragonboard.RmtfsReadOnly
import Dragonboard.RmtfsSafe
import Dragonboard.RmtfsSectors
import Dragonboard.RmtfsOffsets
import Dragonboard.RmtfsTransfer
import Dragonboard.Ns
import Dragonboard.NsView
import Dragonboard.NsMachine
import Dragonboard.NsIsolation
import Dragonboard.NsObserver
import Dragonboard.Replica
import Dragonboard.NsPeers
import Dragonboard.NsDeparture
import Dragonboard.LinkedList
import Dragonboard.LinkedListRun
import Dragonboard.WaiterCapacity
import Dragonboard.Runs
import Dragonboard.WaiterLatch
import Dragonboard.WaiterServe
import Dragonboard.NsLookups
import Dragonboard.NsHello
import Dragonboard.NsReceived
import Dragonboard.NsCovered
import Dragonboard.NsSelfContained
import Dragonboard.NsRegistry
import Dragonboard.NsSweep
import Dragonboard.NsLoop
import Dragonboard.LookupTool
import Dragonboard.LexicalPath
import Dragonboard.Translate
import Dragonboard.Qrtr
import Dragonboard.QrtrIdentity
import Dragonboard.RmtfsPackets
import Dragonboard.RmtfsResponses
import Dragonboard.RmtfsAnswers
import Dragonboard.Rproc
import Dragonboard.RprocShutdown
import Dragonboard.RprocSignals
import Dragonboard.PdMapper
import Dragonboard.PdMapperResponse
import Dragonboard.PdMapperRun
import Dragonboard.Tqftpserv
import Dragonboard.TqftpservDeparture
import Dragonboard.TqftpservFds
import Dragonboard.Ring
import Dragonboard.TqftpservLists
import Dragonboard.PosixFile
import Dragonboard.TqftpservWrite
import Dragonboard.TqftpservRead
import Dragonboard.TqftpservWindow
import Dragonboard.BufferScan
import Dragonboard.TqftpservBounds
import Dragonboard.TqftpservOptions
import Dragonboard.TqftpservOack
import Dragonboard.AudioHw
import Dragonboard.AudioHwPosition
import Dragonboard.GrallocGbm
import Dragonboard.GrallocGbmLock
import Dragonboard.GrallocGbmRegistry
import Dragonboard.GrallocGbmNesting
import Dragonboard.TqftpservFiles
import Dragonboard.TqftpservRoundTrip
