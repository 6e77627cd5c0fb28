import KernelReach.Files.Path
import KernelReach.Text.Blank
import KernelReach.Text.Case
import KernelReach.Text.Numeral
import KernelReach.Text.Quoted

/-!
# Backends

The targets for which kernels can be generated: what the generated code needs to know about a
target, and how its device code is compiled.
-/

namespace KernelReach

/-- A backend, known by its name. -/
structure Backend where
  name : String
  deriving DecidableEq, Repr

/-- What the code for a backend is made with. -/
structure BackendProfile where
  backend : Backend
  /-- What stands before a device function. -/
  deviceQualifier : String
  /-- What stands before a pointer to global memory. -/
  globalQualifier : String
  headerPath : String
  kernelPath : String
  collectorPath : String
  deriving DecidableEq, Repr

/-- How device code is to be compiled. -/
structure CompileOptions where
  /-- The directory of the compiler; empty if it is found by its name. -/
  toolkitDir : String := ""
  /-- The word size of the host code; 0 for that of the machine. -/
  bits : Int := 0
  /-- More options for the compiler, with blanks between them. -/
  gencode : String := ""
  source : String := ""
  output : String := ""
  deriving DecidableEq, Repr

/-- Why there is no command to compile device code. -/
inductive CompileError
  /-- Code for this backend is compiled when it is loaded. -/
  | noOfflineCompiler (backend : Backend)
  | missingPath
  deriving DecidableEq, Repr

def CompileError.message : CompileError → String
  | noOfflineCompiler b => b.name ++ ": backend has no offline compiler"
  | missingPath => "compile command needs both source and output paths"

namespace Backend

/-- The backend with a compiler of its own. -/
def cuda : Backend := ⟨"cuda"⟩

/-- The backend whose code is compiled by the driver. -/
def opencl : Backend := ⟨"opencl"⟩

def all : List Backend := [cuda, opencl]

/-- A name that is not that of a backend. -/
structure Unknown where
  text : String
  deriving DecidableEq, Repr

def Unknown.message (u : Unknown) : String :=
  "unknown backend " ++ Text.quote u.text ++ " (want cuda or opencl)"

/-- The backend with a name, blanks and case aside; an empty name stands for the first. -/
def parse (s : String) : Except Unknown Backend :=
  let name := Text.lower (Text.trim s)
  if name = "" ∨ name = cuda.name then .ok cuda
  else if name = opencl.name then .ok opencl
  else .error ⟨s⟩

/-- The directory of the code templates. -/
def templateDir : String := "/edu/syr/pcpratts/rootbeer/generate/opencl/"

/-- What the code for a backend is made with. -/
def profile (b : Backend) : BackendProfile :=
  let collectorPath := templateDir ++ "GarbageCollector.c"
  if b = opencl then
    { backend := opencl, deviceQualifier := "", globalQualifier := "__global",
      headerPath := templateDir ++ "OpenCLHeader.c",
      kernelPath := templateDir ++ "OpenCLKernel.c", collectorPath }
  else
    { backend := cuda, deviceQualifier := "__device__", globalQualifier := "",
      headerPath := templateDir ++ "CudaHeader.c",
      kernelPath := templateDir ++ "CudaKernel.c", collectorPath }

def wordSize : Int := 64

/-- The command that compiles device code. -/
def compileCommand (b : Backend) (o : CompileOptions) : Except CompileError (List String) :=
  if b ≠ cuda then .error (.noOfflineCompiler b)
  else if o.source = "" ∨ o.output = "" then .error .missingPath
  else
    let compiler := if o.toolkitDir = "" then "nvcc" else Path.join o.toolkitDir "nvcc"
    let bits := if o.bits = 0 then wordSize else o.bits
    .ok ([compiler, "-m" ++ Text.integer bits] ++ Text.fields o.gencode
      ++ ["-fatbin", o.source, "-o", o.output])

end Backend

end KernelReach
