import SpendAuth.Bytes.Lemmas
import SpendAuth.Session
import SpendAuth.SignedMessage
import SpendAuth.SigHash.Text
import SpendAuth.Proofs.Secp256k1.Ladder
import SpendAuth.Proofs.Secp256k1.Prime
import SpendAuth.Proofs.Secp256k1.Field
import SpendAuth.Proofs.Secp256k1.Group
import SpendAuth.Proofs.Secp256k1.Order
import SpendAuth.Proofs.Secp256k1.PublicKey
import SpendAuth.Proofs.Ecdsa.Verification
import SpendAuth.Proofs.Ecdsa.LowForm
import SpendAuth.Proofs.Ecdsa.Recovery
import SpendAuth.Proofs.Ecdsa.Reflection
import SpendAuth.Proofs.Ecdsa.Signing
import SpendAuth.Proofs.Ecdsa.Der
import SpendAuth.Proofs.SpendSignature
import SpendAuth.Proofs.SigHash.Fresh
import SpendAuth.Proofs.Checking
import SpendAuth.Proofs.Session
import SpendAuth.Proofs.Transaction.Encoding
import SpendAuth.Proofs.SigHash.WitnessCommitment
import SpendAuth.Proofs.SigHash.LegacyCommitment
import SpendAuth.Proofs.Screening
import SpendAuth.Proofs.SharedCache
import SpendAuth.Proofs.StrictForm
import SpendAuth.Proofs.Malleability
import SpendAuth.Proofs.Ecdsa.NonceLoop
import SpendAuth.Proofs.Signing
import SpendAuth.Proofs.Bytes.Base64
import SpendAuth.Proofs.Ecdsa.Compact
import SpendAuth.Proofs.SignedMessage
import SpendAuth.Proofs.MessageReading
import SpendAuth.Proofs.MessageFormat
import SpendAuth.Proofs.Transaction.Reading
import SpendAuth.Proofs.Transaction.Consuming
import SpendAuth.Proofs.Transaction.Layout
import SpendAuth.Proofs.Transaction.Writing
import SpendAuth.Proofs.Transaction.Identity
import SpendAuth.Proofs.Strictness
import SpendAuth.Proofs.StrictGrammar
import SpendAuth.Proofs.Script.Removal
import SpendAuth.Proofs.Script.Building
import SpendAuth.Proofs.Script.Indexing
import SpendAuth.Proofs.Script.P2pkh
import SpendAuth.Proofs.SigHash.LegacyEdits
import SpendAuth.Proofs.CacheHistory
import SpendAuth.Proofs.SignatureCodec
import SpendAuth.Proofs.Verdicts
import SpendAuth.Proofs.Ecdsa.DerLength
import SpendAuth.Proofs.Hash.Display
import SpendAuth.Proofs.Script.Progress
import SpendAuth.Proofs.Script.Showing
import SpendAuth.Proofs.Wire.ShortestCount
