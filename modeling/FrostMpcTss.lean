import FrostMpcTss.Proofs.AfterCompletion
import FrostMpcTss.Proofs.ConnectedPeers
import FrostMpcTss.Proofs.DkgOrder
import FrostMpcTss.Proofs.EchoBlame
import FrostMpcTss.Proofs.FullVerification
import FrostMpcTss.Proofs.NoFalseAlarm
import FrostMpcTss.Proofs.ParticipantMapping
import FrostMpcTss.Proofs.ReProposal
import FrostMpcTss.Proofs.ReceivedStart
import FrostMpcTss.Proofs.RemoteAnswers
import FrostMpcTss.Proofs.RequestAnswers
import FrostMpcTss.Proofs.RpcParameters
import FrostMpcTss.Proofs.SessionIsolation
import FrostMpcTss.Proofs.ShareRouting
import FrostMpcTss.Proofs.SigningIdentifiers
import FrostMpcTss.Proofs.SigningOrder
import FrostMpcTss.Proofs.SigningSources
import FrostMpcTss.Proofs.StartMsgDecoder
import FrostMpcTss.Proofs.StoredShare
import FrostMpcTss.Proofs.WalletIds
import FrostMpcTss.Proofs.WalletLifecycle
import FrostMpcTss.Proofs.WireCodec
