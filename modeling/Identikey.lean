import Identikey.Lib.KeyedList
import Identikey.Lib.BigEndian
import Identikey.Lib.Reader
import Identikey.Lib.Fallible
import Identikey.Lib.Run
import Identikey.Lib.Chain
import Identikey.Lib.Aead
import Identikey.Lib.FileSystem
import Identikey.Lib.Metered
import Identikey.Lib.Bits
import Identikey.Lib.Sha2
import Identikey.Lib.Trace
import Identikey.Lib.Radix
import Identikey.Lib.Gf256
import Identikey.Lib.ForRange
import Identikey.Lib.Follow
import Identikey.Auth.Error
import Identikey.Auth.Cbor
import Identikey.Auth.CborExact
import Identikey.Auth.CborWork
import Identikey.Auth.Key
import Identikey.Auth.Fingerprint
import Identikey.Auth.Challenge
import Identikey.Auth.Attestation
import Identikey.Auth.CborFields
import Identikey.Auth.WireForm
import Identikey.Auth.Sha256
import Identikey.Auth.StateRecord
import Identikey.Auth.StateRecordExact
import Identikey.Auth.Signer
import Identikey.Auth.Trust
import Identikey.Auth.TrustRun
import Identikey.Auth.TrustSafety
import Identikey.Auth.TrustLive
import Identikey.Auth.Agreement
import Identikey.Auth.Replay
import Identikey.Auth.Nonce
import Identikey.Auth.Verify
import Identikey.Auth.VerifierRun
import Identikey.Auth.ChallengeBinding
import Identikey.Auth.HonestResponse
import Identikey.Auth.TimeWindow
import Identikey.Auth.NonceGc
import Identikey.Auth.RoundTrip
import Identikey.Auth.Sha256Eval
import Identikey.Auth.Sha256Fips
import Identikey.Lib.KeyedInsert
import Identikey.Lib.PrefixCode
import Identikey.Dcbor.Value
import Identikey.Dcbor.Exact
import Identikey.Dcbor.Decode
import Identikey.Dcbor.DecodeExact
import Identikey.Dcbor.Accepted
import Identikey.Gordian.Envelope
import Identikey.Gordian.Digest
import Identikey.Gordian.Wire
import Identikey.Gordian.Query
import Identikey.Gordian.Record
import Identikey.Secret.Record
import Identikey.Secret.Store
import Identikey.Secret.RecordExact
import Identikey.Wallet.Envelope
import Identikey.Wallet.Format
import Identikey.Wallet.Basic
import Identikey.Wallet.Base58
import Identikey.Wallet.BasicExact
import Identikey.Wallet.EnvelopeExact
import Identikey.Wallet.FormatExact
import Identikey.Wallet.RoundTrip
import Identikey.Wallet.Preserve
import Identikey.Wallet.Storage
import Identikey.Wallet.StorageSafety
import Identikey.Wallet.Tampering
import Identikey.Wallet.AtomicWrite
import Identikey.Wallet.Save
import Identikey.Ikey.Command
import Identikey.Ikey.Book
import Identikey.Ikey.Persist
import Identikey.Ikey.Session
import Identikey.Gordian.DigestEval
import Identikey.Log.Op
import Identikey.Log.Hlc
import Identikey.Log.Causality
import Identikey.Log.Codec
import Identikey.Log.Sign
import Identikey.Log.CodecExact
import Identikey.Log.OpImages
import Identikey.Log.Elision
import Identikey.Log.ContentAddress
import Identikey.Log.OneSignature
import Identikey.Log.Canonical
import Identikey.Log.RoundTrip
import Identikey.Log.Author
import Identikey.Share.Wrap
import Identikey.Share.Share
import Identikey.Share.ShareExact
import Identikey.Share.RoundTrip
import Identikey.Share.Wrapping
import Identikey.Share.Operations
import Identikey.Share.Holders
import Identikey.Share.Survival
import Identikey.Share.AccessSet
import Identikey.Share.GrantScope
import Identikey.Share.GrantLifetime
import Identikey.Share.Reachable
import Identikey.Share.Unique
import Identikey.Share.Delegation
import Identikey.Share.GrantMeaning
import Identikey.Share.SmallOrder
import Identikey.Share.Grant
import Identikey.Share.GrantAccess
import Identikey.Share.GrantExact
import Identikey.Share.Canonical
import Identikey.Share.GrantSeparation
import Identikey.Auth.NodeAttest
import Identikey.Auth.SoftwareSigner
import Identikey.Auth.Session
import Identikey.Lib.Datalog
import Identikey.Lib.DatalogScope
import Identikey.Capability.Biscuit
import Identikey.Capability.Capability
import Identikey.Capability.Holder
import Identikey.Capability.HolderFacts
import Identikey.Capability.Attenuation
import Identikey.Capability.Mint
import Identikey.Capability.Commitment
import Identikey.Share.HashInputs
import Identikey.Admit.Envelope
import Identikey.Admit.Thaw
import Identikey.Shamir.Hazmat
import Identikey.Shamir.HazmatExact
import Identikey.Shamir.Interpolate
import Identikey.Shamir.InterpolateExact
import Identikey.Shamir.Shamir
import Identikey.Shamir.ShamirExact
import Identikey.Shamir.Recovery
import Identikey.Shamir.Secrecy
import Identikey.Shamir.Candidate
