import Pintos.Userprog.Exec
import Pintos.Userprog.ExitStatus
import Pintos.Userprog.ChildRecords
import Pintos.Userprog.FilesysExclusion
import Pintos.Userprog.UserPointers
import Pintos.Filesys.Counts
import Pintos.Threads.LockSafety
import Pintos.Userprog.Exit
import Pintos.Userprog.PageTablesMap
import Pintos.Vm.Swap
import Pintos.Devices.Serial
import Pintos.Lib.Hash
import Pintos.Utils.Disk
import Pintos.Filesys.DirectoryMap
import Pintos.Userprog.Children
import Pintos.Userprog.CommandBuffers
import Pintos.Userprog.MmapFailure
import Pintos.Userprog.ReadWrite
import Pintos.Userprog.WriteBack
import Pintos.Vm.SecondChance
import Pintos.Userprog.LoaderResult
import Pintos.Filesys.Fsutil
import Pintos.Threads.MallocSafety
import Pintos.Lib.Arithmetic
import Pintos.Devices.Rtc
import Pintos.Devices.Timer
import Pintos.Threads.Options
import Pintos.Lib.Printf
import Pintos.Lib.Memmove
