import Gobpf.Go.Strings
import Gobpf.Go.Strconv
import Gobpf.Go.Regexp
import Gobpf.Go.Int
import Gobpf.Elf.KernelVersion
import Gobpf.CpuOnline
import Gobpf.Elf.PerfPoll
import Gobpf.TracePipe
import Gobpf.Elf.PerfRead
import Gobpf.PerfEventArray
import Gobpf.Elf.Pinning
import Gobpf.Elf.Relocate
import Gobpf.Elf.Load
import Gobpf.Elf.LoadCorrect
import Gobpf.Elf.PerfMaps
import Gobpf.Bcc.Symbol
import Gobpf.Bcc.Module
import Gobpf.Bcc.Table
import Gobpf.Data.Circular
import Gobpf.Elf.RingQueue
import Gobpf.Bcc.Callback
import Gobpf.Data.Interleave
import Gobpf.Elf.MapStore
import Gobpf.Elf.Probes
import Gobpf.Go.Fmt
import Gobpf.Elf.CurrentVersion
import Gobpf.Bcc.Load
import Gobpf.Bcc.TableAccess
import Gobpf.Elf.Close
import Gobpf.Elf.Lifecycle
import Gobpf.Elf.Tracepoint
