import Scout.Storage.Comparator
import Scout.Txn.Transparency
import Scout.Txn.Duplicates
import Scout.Txn.HandOver
import Scout.Txn.MainLoop
import Scout.Txn.Results
import Scout.Storage.Durable
import Scout.TwoPhase.Locks
import Scout.TwoPhase.Timestamps
import Scout.TwoPhase.Abort
import Scout.TwoPhase.Ordering
import Scout.TwoPhase.ReadOnly
import Scout.Clock.Catchup
import Scout.Clock.Requests
import Scout.Control.Served
import Scout.Sessions.Cleanup
import Scout.EventBus.Interleaving
import Scout.Graph.Decoding
import Scout.Graph.Validate
import Scout.Utils.Drainer
import Scout.Replica.Leaving
import Scout.Replica.HandOff
import Scout.Replica.Sponsor
import Scout.Client.Picker
import Scout.Sessions.WriteBack
import Scout.Sessions.Bookkeeping
import Scout.Partitions.Dealing
import Scout.Partitions.InPlace
