import MesquitteClient.Delivery
import MesquitteClient.Inflight
import MesquitteClient.Acknowledgements
import MesquitteClient.Unsubscribing
import MesquitteClient.Teardown
import MesquitteClient.Resubscribing
import MesquitteClient.FailedCalls
import MesquitteClient.Wildcards
import MesquitteClient.WsStream
import MesquitteClient.Disconnecting
import MesquitteClient.HalfOpen
import MesquitteClient.Ordering
import MesquitteClient.Replacing
import MesquitteClient.Outcomes
import MesquitteClient.Identifiers
import MesquitteClient.EndOfStream
import MesquitteClient.WsSink
import MesquitteClient.Waiters
import MesquitteClient.Transport
import MesquitteClient.Attempts
import MesquitteClient.Retries
import MesquitteClient.Rebuilt
import MesquitteClient.Leftovers
import MesquitteClient.KeepAlive
import MesquitteClient.SubscribeMultiple
import MesquitteClient.Service
import MesquitteClient.Cancelling
import MesquitteClient.StayingDown
import MesquitteClient.Progress
import MesquitteClient.Silence
import MesquitteClient.Wire
import MesquitteClient.Recovering
import MesquitteClient.WsRoundTrip
import MesquitteClient.Reissuing
import MesquitteClient.Multiplicity
import MesquitteClient.Unblocked
import MesquitteClient.Locking
