import HavenOS.Lib.Store
import HavenOS.Lib.Window
import HavenOS.Vga.Basic
import HavenOS.Vga.Cells
import HavenOS.Vga.Cursor
import HavenOS.Vga.Terminal
import HavenOS.Vga.Bulk
import HavenOS.Cstring.Text
import HavenOS.Vga.Format
import HavenOS.Lib.Walk
import HavenOS.Paging.Basic
import HavenOS.Paging.Identity
import HavenOS.Keyboard.Action
import HavenOS.Keyboard.Modifiers
import HavenOS.Keyboard.Release
import HavenOS.Keyboard.OnScreen
import HavenOS.Lib.Blocks
import HavenOS.Memory.Basic
import HavenOS.Memory.Placement
import HavenOS.Interrupt.Basic
import HavenOS.Interrupt.Frame
import HavenOS.Interrupt.RoundTrip
import HavenOS.Vga.Scroll
import HavenOS.Vga.Shift
import HavenOS.Vga.Offset
import HavenOS.Cstring.Number
import HavenOS.Vga.Access
import HavenOS.Serial.Basic
import HavenOS.Serial.Log
import HavenOS.Keyboard.Typing
import HavenOS.Console.Crtc
import HavenOS.Keyboard.Backspace
import HavenOS.Lib.Paint
import HavenOS.Vga.Getters
import HavenOS.Vga.Rect
import HavenOS.Console.Panic
import HavenOS.Cstring.Hex
import HavenOS.Cstring.Decimal
import HavenOS.Cstring.Pointers
import HavenOS.Cstring.Flo
import HavenOS.Cstring.Strcpy
import HavenOS.Cstring.Concat
import HavenOS.Paging.PageFault
import HavenOS.Lib.Compare
import HavenOS.Cstring.Strcmp
import HavenOS.Common.Move
import HavenOS.Common.Memcmp
import HavenOS.Cstring.Reverse
import HavenOS.Serial.Write
import HavenOS.Lib.Descriptor
import HavenOS.Interrupt.Table
import HavenOS.Interrupt.Gdt
import HavenOS.Vga.Message
import HavenOS.Interrupt.Timer
import HavenOS.Interrupt.Idt
import HavenOS.Console.Preempt
import HavenOS.Serial.Wire
import HavenOS.Console.Fault
import HavenOS.Console.Driver
import HavenOS.System.Prompt
