import PerfTools.Elf.Comments
import PerfTools.Elf.CharGutter
import PerfTools.Elf.RoundTrip
import PerfTools.Elf.BufferHistory
import PerfTools.Elf.BufferBounds
import PerfTools.Elf.Headers
import PerfTools.Elf.Liner
import PerfTools.Elf.Records
import PerfTools.Elf.Slots
import PerfTools.Elf.EntrySize
import PerfTools.Elf.AbsentSections
import PerfTools.Elf.RecordCounts
import PerfTools.Elf.SummaryMarks
import PerfTools.Elfdig.Listing
import PerfTools.Net.Mcast
import PerfTools.Io.Pread
import PerfTools.Io.AioSlots
import PerfTools.Modules.Looper
import PerfTools.Net.Chat
import PerfTools.C.Hexdump
import PerfTools.Io.AioErrors
import PerfTools.Io.AioLayout
import PerfTools.Io.ReadWrite
import PerfTools.Io.PerfData
import PerfTools.Security.Encrypt
import PerfTools.Scsi.LogControl
import PerfTools.Elfdig.Object
import PerfTools.X.Margins
import PerfTools.Elfdig.Finders
import PerfTools.Elfdig.Lookups
import PerfTools.Elfdig.FailedReads
import PerfTools.Elf.StringTables
import PerfTools.X.FlipCleanup
import PerfTools.Json.Cycles
import PerfTools.Json.RoundTrip
import PerfTools.Smp.Defaults
import PerfTools.Smp.Force
