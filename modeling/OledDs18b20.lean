import OledDs18b20.Thermostat.Corruption
import OledDs18b20.Thermostat.DecodeExact
import OledDs18b20.Thermostat.GraphDivisor
import OledDs18b20.Thermostat.GraphMonotone
import OledDs18b20.Thermostat.GraphPolyline
import OledDs18b20.Thermostat.GraphScale
import OledDs18b20.Thermostat.HysteresisRun
import OledDs18b20.Thermostat.LoadOutput
import OledDs18b20.Thermostat.LogWindow
import OledDs18b20.Thermostat.MenuIndex
import OledDs18b20.Thermostat.Remote
import OledDs18b20.Thermostat.SamePicture
import OledDs18b20.Thermostat.Sampling
import OledDs18b20.Thermostat.SaveReboot
import OledDs18b20.Thermostat.StatusLine
import OledDs18b20.Thermostat.TypeSwitch
import OledDs18b20.Nokia.Averaging
import OledDs18b20.Nokia.FramePages
import OledDs18b20.Nokia.FuelGauge
import OledDs18b20.Nokia.Texts
import OledDs18b20.IngectorControl.Channels
import OledDs18b20.IngectorControl.Directions
import OledDs18b20.TahoTest.Termination
import OledDs18b20.Thermostat.Poll
import OledDs18b20.Infrared.Handled
import OledDs18b20.U8glib.FontData
import OledDs18b20.Clock.Rtc
import OledDs18b20.Thermostat.Screen
