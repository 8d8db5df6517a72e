import AbstractHttp.Crypto.Base64Decode
import AbstractHttp.Concurrency.Coroutine
import AbstractHttp.Concurrency.CoroutineThread
import AbstractHttp.Concurrency.MessageBus
import AbstractHttp.Concurrency.FailedPush
import AbstractHttp.EventLoop.TimerLoss
import AbstractHttp.EventLoop.TimerOrder
import AbstractHttp.EventLoop.SelectTimeout
import AbstractHttp.EventLoop.Dispatch
import AbstractHttp.EventLoop.RegistryMap
import AbstractHttp.EventLoop.LoopReturn
import AbstractHttp.WebSocket.Handshake
import AbstractHttp.WebSocket.Delivery
import AbstractHttp.EventStream.Bounds
import AbstractHttp.EventStream.Conformance
import AbstractHttp.EventStream.TypeAndRetry
import AbstractHttp.Http.AuthorizationCode
import AbstractHttp.Http.CookieJar
import AbstractHttp.Http.FlattenPrints
import AbstractHttp.Http.FormErrors
import AbstractHttp.Http.HeaderList
import AbstractHttp.Http.RequestOwnership
import AbstractHttp.Process.Bounds
import AbstractHttp.Process.Estimate
import AbstractHttp.Transport.LibuvRequest
import AbstractHttp.Transport.Authorization
import AbstractHttp.Transport.ResponseAgreement
import AbstractHttp.Transport.AppleMulti
import AbstractHttp.Transport.CurlMulti
import AbstractHttp.Transport.CurlLoop
import AbstractHttp.Transport.Downloads
import AbstractHttp.Transport.EventStreamSession
import AbstractHttp.Transport.LibuvSuccess
import AbstractHttp.Transport.Msh3
import AbstractHttp.Transport.SendMulti
import AbstractHttp.Transport.Uploads
import AbstractHttp.Transport.UrlGrammar
import AbstractHttp.Transport.WindowsCookies
import AbstractHttp.WebSocket.Connection
import AbstractHttp.WebSocket.FragmentOrder
import AbstractHttp.WebSocket.History
import AbstractHttp.WebSocket.MachineRun
import AbstractHttp.WebSocket.ReadLoop
import AbstractHttp.WebSocket.RoundTrip
