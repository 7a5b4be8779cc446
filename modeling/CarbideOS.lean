import CarbideOS.Proofs.Gate
import CarbideOS.Proofs.KnownGood
import CarbideOS.Proofs.Repair
import CarbideOS.Proofs.Placement
import CarbideOS.Proofs.Refusal
import CarbideOS.Proofs.Undo
import CarbideOS.Proofs.Terminal
import CarbideOS.Proofs.Restage
import CarbideOS.Proofs.Slate
import CarbideOS.Proofs.Answer
import CarbideOS.Proofs.Passed
import CarbideOS.Proofs.Names
import CarbideOS.Proofs.Strict
import CarbideOS.Proofs.Exclusion
import CarbideOS.Proofs.Published
import CarbideOS.Proofs.Removal
import CarbideOS.Proofs.Revisions
import CarbideOS.Proofs.Counted
import CarbideOS.Proofs.Rollback
import CarbideOS.Proofs.Packaged
import CarbideOS.Proofs.Uploaded
import CarbideOS.Proofs.Wedged
import CarbideOS.Proofs.Recognised
import CarbideOS.Proofs.Ending
import CarbideOS.Proofs.Trimmed
import CarbideOS.Proofs.Piped
import CarbideOS.Proofs.Aligned
import CarbideOS.Proofs.Sized
import CarbideOS.Proofs.Shielded
import CarbideOS.Proofs.Deadlines
import CarbideOS.Proofs.Typed
import CarbideOS.Proofs.Answered
import CarbideOS.Proofs.Paged
import CarbideOS.Proofs.Decoded
import CarbideOS.Proofs.Entries
import CarbideOS.Proofs.Excursion
import CarbideOS.Proofs.Recorded
import CarbideOS.Proofs.Fenced
import CarbideOS.Proofs.Brokered
import CarbideOS.Proofs.Scanned
import CarbideOS.Proofs.Installed
import CarbideOS.Proofs.Unpacked
import CarbideOS.Proofs.Served
import CarbideOS.Proofs.Confined
