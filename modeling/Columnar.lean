import Columnar.Proofs.Built
import Columnar.Proofs.Concatenating
import Columnar.Proofs.Forms
import Columnar.Proofs.NullCounts
import Columnar.Script
import Columnar.Proofs.Padding
import Columnar.Proofs.Refusals
import Columnar.Proofs.Agreeing
import Columnar.Proofs.Twins
import Columnar.Proofs.Residing
import Columnar.Proofs.Destinations
import Columnar.Proofs.Retrying
import Columnar.Proofs.Deeds
import Columnar.Proofs.Replying
import Columnar.Proofs.Fetching
import Columnar.Proofs.Accounts
import Columnar.Proofs.Allocations
import Columnar.Proofs.Numbers
import Columnar.Proofs.Casting
import Columnar.Proofs.Allotting
import Columnar.Proofs.Packing
import Columnar.Proofs.Leading
import Columnar.Proofs.Grouping
import Columnar.Proofs.Merging
import Columnar.Proofs.Wrapping
import Columnar.Proofs.Distributing
import Columnar.Proofs.Computing
import Columnar.Proofs.Nulling
import Columnar.Proofs.Admitting
import Columnar.Proofs.Scanning
import Columnar.Proofs.Bulk
import Columnar.Proofs.Yielding
import Columnar.Proofs.Broadcasting
import Columnar.Proofs.Reversing
import Columnar.Proofs.Recasting
import Columnar.Proofs.Narrowing
import Columnar.Proofs.Storing
import Columnar.Proofs.Comparing
import Columnar.Proofs.Surviving
import Columnar.Proofs.Returning
import Columnar.Proofs.Ranges
import Columnar.Proofs.Growing
