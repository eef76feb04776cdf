import Tinywf.HttpChunkedBody
import Tinywf.HttpChunkCut
import Tinywf.HttpEncode
import Tinywf.HttpInterim
import Tinywf.SchedWaiters
import Tinywf.MsgqueueBound
import Tinywf.SendMessage
import Tinywf.UriUnclosed
import Tinywf.RouteRest
import Tinywf.PoolDestroy
import Tinywf.SeriesParallel
import Tinywf.WorkflowDestroy
import Tinywf.PollerTimer
import Tinywf.PollerExpiry
import Tinywf.CommTimeout
import Tinywf.HttpHeaderFlags
import Tinywf.HttpHeaderMap
import Tinywf.RouteKey
import Tinywf.RouteCache
import Tinywf.UriQuery
import Tinywf.HttpKeepAlive
import Tinywf.UriRedirect
import Tinywf.HttpClientTask
import Tinywf.ServerReplies
import Tinywf.PollerRbtree
import Tinywf.ClientConn
import Tinywf.ClientPlaces
import Tinywf.ClientRefs
import Tinywf.ClientReplies
