import Dwdiff.Assertions
import Dwdiff.CharacterSets
import Dwdiff.Conservation
import Dwdiff.ContextMarkers
import Dwdiff.Filter
import Dwdiff.Grouping
import Dwdiff.Independence
import Dwdiff.LoadedWhitespace
import Dwdiff.Overlap
import Dwdiff.Partition
import Dwdiff.PrintEnd
import Dwdiff.Profile
import Dwdiff.StringStream
import Dwdiff.Totals
import Dwdiff.Transcoding
import Dwdiff.UnicodeEscapes
import Dwdiff.UnifiedDiff
