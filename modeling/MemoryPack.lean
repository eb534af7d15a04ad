import MemoryPack.Reader.Limits
import MemoryPack.Reader.Elements
import MemoryPack.Reader.Builds
import MemoryPack.Reader.InPlace
import MemoryPack.Reader.Locality
import MemoryPack.Wire.Evolution
import MemoryPack.Wire.Inert
import MemoryPack.Wire.UndeclaredTag
import MemoryPack.Wire.Scrubbed
import MemoryPack.Wire.FrameParser
import MemoryPack.Wire.HiddenFailure
import MemoryPack.Wire.Transcoding
import MemoryPack.Core.DotNet
import MemoryPack.DotNet.Half
import MemoryPack.Wire.StringView
import MemoryPack.Wire.TableCursor
import MemoryPack.Cs2Cpp.CSharp
import MemoryPack.Cs2Cpp.CsParser
import MemoryPack.Cs2Cpp.EnumValues
import MemoryPack.DotNet.Guid
import MemoryPack.DotNet.Time
import MemoryPack.Cs2Cpp.CppGenerator
import MemoryPack.Cs2Cpp.CppLayout
import MemoryPack.Cs2Cpp.EmitOrder
import MemoryPack.Cs2Cpp.Leaks
import MemoryPack.Cs2Cpp.NetAgreement
import MemoryPack.Wire.TextLength
import MemoryPack.Writer.Growth
import MemoryPack.Cs2Cpp.TextDiff
import MemoryPack.Cs2Cpp.FieldNames
import MemoryPack.Cs2Cpp.GeneratorRunner
import MemoryPack.Cs2Cpp.TypeText
import MemoryPack.Cs2Cpp.SchemaWire
import MemoryPack.Samples.ChatHistory
import MemoryPack.Reader.Narrowing
import MemoryPack.Wire.Accepted
import MemoryPack.Samples.CppSession
import MemoryPack.Wire.Truncated
import MemoryPack.Cs2Cpp.Dispatch
import MemoryPack.Cs2Cpp.GeneratorCheck
