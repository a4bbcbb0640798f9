/-
ApiSurface.Settings.Fault — why settings cannot be used.

Some faults are reported as invalid settings. The others are not foreseen: an
option that is given as nothing, a file that is no text, a number or date that
makes no sense, a path that no disk allows or that starts from a folder that is
not known.
-/
import ApiSurface.Disk.Basic
import ApiSurface.Text.Quoted
import ApiSurface.Yaml.Cursor

namespace ApiSurface

/-- Why settings cannot be used. -/
inductive SettingsFault where
  /-- The file with this name is no YAML. -/
  | unparsable (file : String)
  /-- The file with this name holds something other than a mapping. -/
  | notMapping (file : String)
  /-- The count of jobs in the file is not positive. -/
  | badJobs
  /-- The count of jobs on the command line is not positive. -/
  | badJobsOption
  /-- The method exclusions in the file are no mapping. -/
  | badExclusions
  /-- A method exclusion on the command line is malformed. -/
  | badExclusion (entry : String)
  /-- An option for a text is given as nothing. -/
  | absentText
  /-- The count of jobs on the command line is given as nothing. -/
  | absentCount
  /-- The path of the settings starts from the folder of a user who is not known. -/
  | unknownUser
  /-- The file is no UTF-8. -/
  | notUtf8
  /-- The host does not read the file. -/
  | host (why : Trouble)
  /-- A number, date or escape in the file makes no sense. -/
  | senseless (why : Yaml.Fault)
  /-- An integer has too many digits to be written. -/
  | longInteger
deriving DecidableEq

namespace SettingsFault

/-- Whether a fault is reported as invalid settings. -/
def isReported : SettingsFault → Bool
  | unparsable _ | notMapping _ | badJobs | badJobsOption | badExclusions | badExclusion _ => true
  | absentText | absentCount | unknownUser | notUtf8 | host _ | senseless _ | longInteger =>
    false

/-- What is wrong, in words; the faults that are not reported have none. -/
def message : SettingsFault → String
  | unparsable file => "Failed to parse " ++ file ++ ": the text is not well-formed"
  | notMapping file => file ++ " must contain a mapping at the root"
  | badJobs => "jobs must be a positive integer"
  | badJobsOption => "--jobs must be a positive integer"
  | badExclusions => "exclude_methods must map class names to lists of signatures"
  | badExclusion entry =>
    "Method exclusion must look like CLASS#NAME(DESCRIPTOR): " ++ Text.quotedString entry
  | absentText | absentCount | unknownUser | notUtf8 | host _ | senseless _ | longInteger => ""

end SettingsFault

end ApiSurface
