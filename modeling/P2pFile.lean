import P2pFile.Relay.ServerForward
import P2pFile.Discovery.Wakeups
import P2pFile.Transport.HandshakeAuth
import P2pFile.Node.ProtocolGate
import P2pFile.Node.ProtocolAgree
import P2pFile.Node.ActivityRuns
import P2pFile.Node.SpaceRuns
import P2pFile.Node.ConfigStore
import P2pFile.Storage.SecureFs
import P2pFile.Node.QueueAgree
import P2pFile.Storage.Admission
import P2pFile.Protocol.ManifestSafety
import P2pFile.Storage.SafeNames
import P2pFile.Transfer.BitmapSet
import P2pFile.Protocol.Frame
import P2pFile.Discovery.LookupBudget
import P2pFile.Net.Classify
import P2pFile.Storage.PublishRace
import P2pFile.Relay.Amplification
import P2pFile.Net.Fingerprint
import P2pFile.Node.FairShares
import P2pFile.Node.BatchRemoval
import P2pFile.Node.RecordMutators
import P2pFile.Node.TaskEvents
import P2pFile.Node.DropSend
import P2pFile.Node.TaskList
import P2pFile.Node.RevocationGuard
import P2pFile.Net.Candidates
