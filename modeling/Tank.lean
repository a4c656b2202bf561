import Tank.ToMathlib.Chain
import Tank.ToMathlib.Tiling
import Tank.ToMathlib.Int64
import Tank.ToMathlib.ByteMemory
import Tank.ToMathlib.EState
import Tank.ToMathlib.AssocList
import Tank.ToMathlib.FirstFree
import Tank.ToMathlib.SkipUsed
import Tank.ToMathlib.PrefixCode
import Tank.ToMathlib.Paths
import Tank.ToMathlib.TwoRuns
import Tank.ToMathlib.Unicode
import Tank.ToMathlib.Reader
import Tank.ToMathlib.Zoom
import Tank.ToMathlib.Memo
import Tank.ToMathlib.Returns
import Tank.ToMathlib.Projection
import Tank.Memory.Heap.HeapAllocator
import Tank.Memory.Heap.Refinement
import Tank.Memory.Heap.Invariant
import Tank.Memory.Heap.Ownership
import Tank.Memory.Heap.FirstFit
import Tank.Unicorn
import Tank.Memory.MemoryManager
import Tank.Memory.IncrementalAllocator
import Tank.Memory.PageCover
import Tank.Module.ElfFile
import Tank.Module.Segments
import Tank.Module.Layout
import Tank.Module.Image
import Tank.Utils.DigitUtils
import Tank.Utils.Words
import Tank.Module.Modules
import Tank.Module.Symbols
import Tank.Helper.NativeCallHelper
import Tank.Helper.CallNative
import Tank.Helper.HookArgs
import Tank.Module.Relocation
import Tank.Module.RelocationOrder
import Tank.Module.Interposition
import Tank.Module.Registry
import Tank.Module.ElfParser
import Tank.Module.InitArray
import Tank.Jelf.Words
import Tank.Jelf.Records
import Tank.Jelf.Header
import Tank.Jelf.Tables
import Tank.Jelf.LazyFile
import Tank.Jelf.Session
import Tank.Jelf.Loading
import Tank.Jelf.Refinement
import Tank.Jelf.Parsed
import Tank.Hook.Stubs
import Tank.Hook.Hookers
import Tank.Hook.Dispatch
import Tank.Hook.FunctionTable
import Tank.Hook.ThumbEntry
import Tank.Hook.FuncHooks
import Tank.Hook.ArgFetch
import Tank.Hook.StubExecution
import Tank.Hook.TableIds
import Tank.Helper.UpperHalves
import Tank.Helper.StackArgs
import Tank.Jenv.AsmClass
import Tank.Jenv.Mirror
import Tank.Jenv.MemberIds
import Tank.Jenv.ClassLoader
import Tank.Jenv.JReferencTable
import Tank.Jenv.ReferenceIndices
import Tank.Jenv.JniEnv
import Tank.Jenv.Handles
import Tank.Jenv.GlobalRefs
import Tank.Jenv.JavaHeap
import Tank.Jenv.JniCalls
import Tank.Jenv.Wrappers
import Tank.Jenv.KnownClasses
import Tank.Jenv.ObjectClass
import Tank.Jenv.SameObject
import Tank.Jenv.NullHandles
import Tank.Jenv.CallVariants
import Tank.Jenv.PrimitiveFields
import Tank.Jenv.BooleanArrays
import Tank.Jenv.NativeMemory
import Tank.Jenv.ObjectArrays
import Tank.Jenv.Arguments
import Tank.Jenv.Constructors
import Tank.Jenv.RegisterNatives
import Tank.Jenv.Bootstrap
import Tank.Jenv.TableCalls
import Tank.Cenv.Handler
import Tank.Cenv.MemorySyscalls
import Tank.Cenv.Permissions
import Tank.Cenv.Fork
import Tank.Cenv.Dispatchers
import Tank.Helper.MemoryHelper
import Tank.Helper.MemoryAccess
import Tank.Helper.Strings
import Tank.Vfs.RootDir
import Tank.Vfs.HostFiles
import Tank.Vfs.VirtualFileSystem
import Tank.Vfs.Descriptors
import Tank.Vfs.Reads
import Tank.Vfs.PathSyscalls
import Tank.Vfs.StatLayout
import Tank.Vfs.Opening
import Tank.Vfs.Writev
import Tank.Cenv.Kernel
import Tank.Cenv.KernelFrames
import Tank.Cenv.KernelRuns
import Tank.Cenv.KernelMemory
