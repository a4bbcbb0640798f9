/-
ApiSurface.Visibility.Markers — names that decide about publication.

Markers are names chosen by configuration: the annotations that mark internal
code and those that are never shown, the package part that marks internal code,
and the annotation that is shown before all others.
-/
import ApiSurface.ClassPath.Names

namespace ApiSurface

/-- The names that decide about publication. -/
structure Markers where
  /-- An annotation type whose name ends in this marks internal code. -/
  internalSuffix : String
  /-- An annotation that marks internal code always. -/
  defaultInternal : String
  /-- The annotation that is shown before all others. -/
  doNotImplement : String
  /-- A class whose name contains this is internal. -/
  internalPackage : String
  /-- Annotations that are not shown, beside the common ones. -/
  blacklist : List String
deriving DecidableEq

namespace Markers

/-- The markers where configuration names none. -/
def standard : Markers where
  internalSuffix := ".CordaInternal"
  defaultInternal := "net.corda.core.CordaInternal"
  doNotImplement := "net.corda.core.DoNotImplement"
  internalPackage := ".internal."
  blacklist := []

/-- Annotations that are never shown. -/
def commonBlacklist : List String := [
  "kotlin.jvm.JvmField", "kotlin.jvm.JvmOverloads", "kotlin.jvm.JvmStatic",
  "kotlin.jvm.JvmDefault", "kotlin.Deprecated", "java.lang.Deprecated"]

/-- All annotations that are not shown whatever the classes say, each once. -/
def unshown (m : Markers) : List String :=
  Names.distinct (commonBlacklist ++ m.defaultInternal :: m.blacklist)

/-- Whether the name of an annotation type marks internal code. -/
def marksInternal (m : Markers) (name : String) : Bool :=
  m.internalSuffix.toList.isSuffixOf name.toList

/-- Whether a list occurs in another without gaps. -/
def occursIn (part : List Char) : List Char → Bool
  | [] => part.isEmpty
  | c :: rest => part.isPrefixOf (c :: rest) || occursIn part rest

/-- Whether a class lies in an internal package. -/
def isInternalPackage (m : Markers) (name : String) : Bool :=
  occursIn m.internalPackage.toList name.toList

end Markers

end ApiSurface
