import Song.Compiler.CppText.Members

/-!
# The generated C++ files (`codegen.cpp`)

The one header of `--single`, and the four files of `--split`.
-/

namespace Song.Compiler.CppText

/-! ## Parts of files -/

section
variable (ns : Namespace)

/-- The parts followed by a blank line each. -/
def parts {α : Type} (xs : List α) (f : α → List Line) : List Line :=
  xs.flatMap fun x => f x ++ [blank]

def openNamespace : List Line := [line [t "namespace song::", raw ns.name, t " \x7b"], blank]

def closeNamespace : List Line := [line [t "\x7d // namespace song::", raw ns.name]]

def usingSong : List Line := [line [t "using namespace song;"], blank]

def forwardStructs : List Line :=
  ns.structs.map (fun s => line [t "struct ", raw s.name, t ";"]) ++
  if ns.structs.isEmpty then [] else [blank]

def forwardClasses : List Line :=
  ns.classes.flatMap (fun c => [line [t "class ", raw c.name, t "Proxy;"],
    line [t "class ", raw c.name, t "Base;"]]) ++
  if ns.classes.isEmpty then [] else [blank]

/-- The codecs of an enum. -/
def enumCodecs (e : EnumDef) : List Line :=
  generateEnumEncode e ++ [blank] ++ generateEnumDecode e ++ [blank] ++
    generateEnumArrayEncode e ++ [blank] ++ generateEnumArrayDecode e ++ [blank]

def structCodec (s : StructDef) : List Line :=
  generateStructEncode s ++ [blank] ++ generateStructDecode s ++ [blank]

def structArrays (s : StructDef) : List Line :=
  generateStructArrayEncode s ++ [blank] ++ generateStructArrayDecode s ++ [blank]

/-- The array helpers of a struct, ahead of their bodies. -/
def forwardArrays (s : StructDef) : List Line :=
  [line [t "inline void ", declares (.encodeArray s.name) .inlineOnly,
      t "(Buffer& buf, const std::vector<", raw s.name, t ">& arr);"],
    line [t "inline std::vector<", raw s.name, t "> ", declares (.decodeArray s.name) .inlineOnly,
      t "(Buffer& buf);"]]

def structSerialization : List Line :=
  if ns.structs.isEmpty then [] else
    [line [t "// Forward declare array helpers"]] ++ ns.structs.flatMap forwardArrays ++
    [blank, line [t "// Serialization"]] ++ ns.structs.flatMap structCodec ++
    ns.structs.flatMap structArrays

/-! ## The single header -/

def headerTop : List Line :=
  [line [t "// Generated by songc - DO NOT EDIT"],
    line [t "// Source: ", raw ns.name, t ".song"],
    blank,
    line [t "#pragma once"],
    blank,
    line [t "#include <song/song.hpp>"],
    line [t "#include <string>"],
    line [t "#include <vector>"],
    line [t "#include <optional>"],
    line [t "#include <stdexcept>"],
    line [t "#include <functional>"],
    blank]

/-- The types of a header and their codecs. -/
def headerTypes : List Line :=
  ns.enums.flatMap (fun e => generateEnumDef e ++ [blank]) ++
  ns.enums.flatMap (fun e => generateEnumName e ++ [blank] ++ enumCodecs e) ++
  ns.structs.flatMap (fun s => generateStructDef s ++ [blank]) ++
  structSerialization ns

def headerMembers : List Line :=
  parts ns.services generateServiceProxy ++ parts ns.services generateServiceInterface ++
  parts ns.services generateServiceDispatcher ++ parts ns.classes generateClassProxy ++
  parts ns.classes generateClassSkeleton ++ parts ns.classes generateClassDispatcher ++
  parts ns.classes generateClassFactory

def generateHeader : List Line :=
  headerTop ns ++ openNamespace ns ++ usingSong ++
  (if ns.services.isEmpty then [] else generateServiceIds ns) ++
  (if ns.classes.isEmpty then [] else generateClassIds ns) ++
  forwardStructs ns ++ forwardClasses ns ++ headerTypes ns ++ headerMembers ns ++ closeNamespace ns

/-! ## The split files -/

def generateTypesHeader : List Line :=
  [line [t "// Generated by songc - DO NOT EDIT"],
    line [t "// Source: ", raw ns.name],
    blank,
    line [t "#pragma once"],
    blank,
    line [t "#include <song/song.hpp>"],
    line [t "#include <string>"],
    line [t "#include <vector>"],
    line [t "#include <optional>"],
    blank] ++ openNamespace ns ++ forwardStructs ns ++
  ns.enums.flatMap (fun e => generateEnumDef e ++ [blank]) ++ ns.enums.flatMap enumCodecs ++
  ns.structs.flatMap (fun s => generateStructDef s ++ [blank]) ++
  [line [t "// Serialization functions"]] ++
  ns.structs.flatMap (fun s =>
    [line [t "void ", declares (.encode s.name) .external, t "(Buffer& buf, const ", raw s.name,
        t "& val);"],
      line [raw s.name, t " ", declares (.decode s.name) .external, t "(Buffer& buf);"]]) ++
  [blank] ++ closeNamespace ns

def generateWireImpl : List Line :=
  [line [t "// Generated by songc - DO NOT EDIT"],
    line [t "// Source: ", raw ns.name],
    blank,
    line [t "#include \"", raw ns.name, t "_types.hpp\""],
    blank] ++ openNamespace ns ++ usingSong ++ ns.structs.flatMap structCodec ++ closeNamespace ns

def generateClientHeader : List Line :=
  [line [t "// Generated by songc - DO NOT EDIT"],
    line [t "// Client proxies for ", raw ns.name],
    line [t "#pragma once"],
    blank,
    line [t "#include \"", raw ns.name, t "_types.hpp\""],
    blank] ++ openNamespace ns ++ usingSong ++ generateServiceIds ns ++
  parts ns.services generateServiceProxy ++ closeNamespace ns

def generateServerHeader : List Line :=
  [line [t "// Generated by songc - DO NOT EDIT"],
    line [t "// Server skeletons for ", raw ns.name],
    line [t "#pragma once"],
    blank,
    line [t "#include \"", raw ns.name, t "_types.hpp\""],
    line [t "#include <stdexcept>"],
    blank] ++ openNamespace ns ++ usingSong ++ generateServiceIds ns ++
  ns.services.flatMap (fun s => generateServiceInterface s ++ [blank] ++
    generateServiceDispatcher s ++ [blank]) ++ closeNamespace ns

end

end Song.Compiler.CppText
