/-!
# The version of the program

The name and the version on one line, or with where the program was built and what it can do.
-/

namespace EngineLink.Version

/-- Where a program was built and for what. -/
structure Build where
  target : String
  system : String
  architecture : String
  revision : String

/-- What is known of this program. -/
def here : Build :=
  ⟨"unknown", "linux", "x86_64", "unknown"⟩

/-- The name and the version of the program. -/
def short : String :=
  "simbridge 0.1.0\n"

/-- The version with the provenance, one item on a line. -/
def extended (b : Build) : String :=
  "name: simbridge\nversion: 0.1.0\nbuild_target: " ++ b.target ++ "\ntarget_os: " ++ b.system ++
    "\ntarget_arch: " ++ b.architecture ++ "\ngit_hash: " ++ b.revision ++
    "\nfeatures: server=true, provider=true, cli=true\n"

/-- What the version command prints. -/
def text (withProvenance : Bool) (b : Build) : String :=
  if withProvenance then extended b else short

end EngineLink.Version
