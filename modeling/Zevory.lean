import Zevory.Chances
import Zevory.Children
import Zevory.Delivery
import Zevory.Descriptors
import Zevory.Device
import Zevory.Grace
import Zevory.Harvest
import Zevory.Interaction.Attempts
import Zevory.Mounts
import Zevory.Pace
import Zevory.Ready
import Zevory.Refetch
import Zevory.Silence
import Zevory.WayOut
import Zevory.Course
import Zevory.FirstShell
import Zevory.Rounds
import Zevory.Reaped
import Zevory.Lull
import Zevory.Play
import Zevory.Requests
import Zevory.Restarts
import Zevory.Standing
import Zevory.Interaction.Sequel
import Zevory.Reports
import Zevory.Waits
import Zevory.Grounds
import Zevory.Texts
import Zevory.Fallback
