import ScriptHost.Digest.Json
import ScriptHost.Session.Basic
import ScriptHost.Proofs.Selection
import ScriptHost.Proofs.Yields
import ScriptHost.Proofs.Loading
import ScriptHost.Proofs.Loaders
import ScriptHost.Proofs.WholeLoad
import ScriptHost.Proofs.ScriptExchange
import ScriptHost.Proofs.Asking
import ScriptHost.Proofs.Walk
import ScriptHost.Proofs.Collecting
import ScriptHost.Proofs.Exchange
import ScriptHost.Proofs.Stepping
import ScriptHost.Proofs.Accounting
import ScriptHost.Proofs.FailStop
import ScriptHost.Proofs.Exits
import ScriptHost.Proofs.ForcedResult
import ScriptHost.Proofs.PushHistory
import ScriptHost.Proofs.Calling
import ScriptHost.Proofs.Keeping
import ScriptHost.Proofs.Effects
import ScriptHost.Proofs.Interference
import ScriptHost.Proofs.Walking
import ScriptHost.Proofs.Interleaving
import ScriptHost.Proofs.Streaming
import ScriptHost.Proofs.CodeWindow
import ScriptHost.Proofs.OneShot
import ScriptHost.Proofs.Decoding
import ScriptHost.Proofs.Packing
import ScriptHost.Proofs.TextRoundTrip
import ScriptHost.Proofs.Replacing
import ScriptHost.Proofs.FixedWidth
import ScriptHost.Proofs.Searching
import ScriptHost.Proofs.Terminating
import ScriptHost.Proofs.HexDigits
import ScriptHost.Proofs.RefusalPlace
import ScriptHost.Proofs.DigestGrammar
import ScriptHost.Proofs.HexText
import ScriptHost.Proofs.DigestText
import ScriptHost.Proofs.DigestOrder
import ScriptHost.Proofs.CharacterBytes
import ScriptHost.Proofs.DamagedText
import ScriptHost.Proofs.Printing
import ScriptHost.Proofs.TextChannels
import ScriptHost.Proofs.Metering
