import UnoOS.Fs.BlockIndex
import UnoOS.Fs.Dir

namespace UnoOS.Fs

open UnoOS.Lib

/-! What the callers of the allocators do when there is nothing left. -/

section

variable {i : Slot} {s : FsState} {bn : Nat}

end

/-! `dir_add_entry`. -/

section

variable {type major minor : UInt16} {s : FsState}

end

/-! All of them. -/

end UnoOS.Fs
