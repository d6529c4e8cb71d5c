import Tarnos.Kernel.Letters
import Tarnos.Kernel.Context
import Tarnos.Kernel.Ledger
import Tarnos.Kernel.Resume
import Tarnos.Kcore.Rendezvous
import Tarnos.Memory.Residue
import Tarnos.Arch.Flags
import Tarnos.Kernel.Results
import Tarnos.Kernel.Grants
import Tarnos.Kernel.Isolation
import Tarnos.Memory.ElfImage
import Tarnos.Kernel.Locks
import Tarnos.Kernel.Idle
import Tarnos.Kernel.QueueFull
import Tarnos.Kernel.Exchange
import Tarnos.Memory.Seeding
import Tarnos.Fs.Lookup
import Tarnos.Fs.Names
import Tarnos.Driver.Requests
import Tarnos.Memory.Regions
import Tarnos.Memory.Teardown
import Tarnos.Kernel.Executor
