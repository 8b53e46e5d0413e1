import PicoSignet.Answers
import PicoSignet.Attempts
import PicoSignet.Backoff
import PicoSignet.CertDecode
import PicoSignet.Consistency
import PicoSignet.CrashAtomic
import PicoSignet.Custody
import PicoSignet.Destructive
import PicoSignet.Diagram
import PicoSignet.DurationExact
import PicoSignet.DurationFormat
import PicoSignet.DurationRun
import PicoSignet.EraseCut
import PicoSignet.Exhausted
import PicoSignet.Firewall
import PicoSignet.FloorCut
import PicoSignet.HonestHost
import PicoSignet.Json
import PicoSignet.KeyLine
import PicoSignet.KeyMoves
import PicoSignet.Lockout
import PicoSignet.OtpSecret
import PicoSignet.OwnerPin
import PicoSignet.PairWrite
import PicoSignet.PinBudget
import PicoSignet.Randomness
import PicoSignet.Relock
import PicoSignet.ResetRetry
import PicoSignet.RetryBudget
import PicoSignet.RoundTrip
import PicoSignet.Session
import PicoSignet.Thumb
import PicoSignet.Cli
import PicoSignet.Connections
import PicoSignet.Refusal
